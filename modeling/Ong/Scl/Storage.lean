import Mathlib.Data.List.Sort
import Ong.M2M.Basic
import Ong.Lib.FiniteMap

/-!
# The resources and their storage

The storage is a map from paths to resources, which a batch of modifications changes all at once or
not at all.
-/

namespace Ong.Scl

open M2M

/-- The attribute `onlineStatus`; `none` stands for `ID_ENUM_UNDEFINED_VALUE`. -/
inductive OnlineStatus
  | online | offline | notReachable
  deriving DecidableEq

set_option linter.dupNamespace false in
structure Scl where
  onlineStatus : OnlineStatus
  serverCapability : Bool
  deriving DecidableEq

structure M2MPoc where
  onlineStatus : OnlineStatus
  expirationTime : Option Int
  deriving DecidableEq

structure Container where
  maxNrOfInstances : Option Int := none
  maxByteSize : Option Int := none
  maxInstanceAge : Option Int := none
  deriving DecidableEq

structure ContentInstances where
  currentNrOfInstances : Int
  currentByteSize : Int
  latest : Option Path := none
  deriving DecidableEq

structure ContentInstance where
  id : String
  creationTime : Int
  contentSize : Int
  deriving DecidableEq

/-- A stored resource; of a subscription, the `attributeAccessor` of its filter criteria.
`collection` stands for those that only hold their sub-resources. -/
inductive Resource
  | scl (resource : Scl)
  | m2mPoc (resource : M2MPoc)
  | container (resource : Container)
  | contentInstances (resource : ContentInstances)
  | contentInstance (resource : ContentInstance)
  | subscription (attributeAccessor : Option String)
  | collection
  deriving DecidableEq

/-- The documents by path. -/
abbrev Storage := AList fun _ : Path => Resource

inductive Modification
  | create (path : Path) (resource : Resource)
  | update (path : Path) (resource : Resource)
  | delete (path : Path)
  deriving DecidableEq

variable (s : Storage)

/-- One modification; `none` when the storage reports an error. -/
def Modification.apply : Modification → Option Storage
  | .create path resource => if path ∈ s then none else some (s.insert path resource)
  | .update path resource => if path ∈ s then some (s.insert path resource) else none
  | .delete path => if path ∈ s then some (s.erase path) else none

/-- The atomic `batchModify`. -/
def batchModify (modifications : List Modification) : Option Storage :=
  modifications.foldlM Modification.apply s

@[simp] theorem batchModify_nil : batchModify s [] = some s := rfl

theorem batchModify_cons (m : Modification) (ms : List Modification) :
    batchModify s (m :: ms) = (m.apply s).bind fun t => batchModify t ms := rfl

theorem batchModify_append (ms₁ ms₂ : List Modification) :
    batchModify s (ms₁ ++ ms₂) = (batchModify s ms₁).bind fun t => batchModify t ms₂ := by
  simp [batchModify, List.foldlM_append, Option.bind_eq_bind]

/-! ## What a modification leaves under a path -/

theorem apply_create_eq_some {s t : Storage} {path : Path} {resource : Resource} :
    (Modification.create path resource).apply s = some t ↔
      s.lookup path = none ∧ s.insert path resource = t := by
  rw [AList.lookup_eq_none]
  by_cases h : path ∈ s <;> simp [Modification.apply, h]

theorem apply_update_eq_some {s t : Storage} {path : Path} {resource : Resource} :
    (Modification.update path resource).apply s = some t ↔
      (∃ r, s.lookup path = some r) ∧ s.insert path resource = t := by
  rw [← Option.isSome_iff_exists, AList.lookup_isSome]
  by_cases h : path ∈ s <;> simp [Modification.apply, h]

theorem apply_delete_eq_some {s t : Storage} {path : Path} :
    (Modification.delete path).apply s = some t ↔
      (∃ r, s.lookup path = some r) ∧ s.erase path = t := by
  rw [← Option.isSome_iff_exists, AList.lookup_isSome]
  by_cases h : path ∈ s <;> simp [Modification.apply, h]

/-- The path that a modification is about. -/
def Modification.path : Modification → Path
  | .create path _ | .update path _ | .delete path => path

theorem lookup_apply_of_ne {s t : Storage} {m : Modification} (h : m.apply s = some t) {p : Path}
    (hp : p ≠ m.path) : t.lookup p = s.lookup p := by
  cases m with
  | create path resource =>
    rw [← (apply_create_eq_some.mp h).2]
    exact AList.lookup_insert_ne hp
  | update path resource =>
    rw [← (apply_update_eq_some.mp h).2]
    exact AList.lookup_insert_ne hp
  | delete path =>
    rw [← (apply_delete_eq_some.mp h).2]
    exact AList.lookup_erase_ne hp

theorem lookup_batchModify_of_notMem {ms : List Modification} {s t : Storage}
    (h : batchModify s ms = some t) {p : Path} (hp : ∀ m ∈ ms, p ≠ m.path) :
    t.lookup p = s.lookup p := by
  induction ms generalizing s with
  | nil =>
    cases h
    rfl
  | cons m ms ih =>
    obtain ⟨u, hu, hms⟩ := Option.bind_eq_some_iff.mp h
    rw [ih hms fun m' hm' => hp m' (List.mem_cons_of_mem _ hm'),
      lookup_apply_of_ne hu (hp m List.mem_cons_self)]

/-! ## Searches -/

variable (path : Path)

/-- The path of the parent resource, and the name of the resource in it. -/
def splitPath : Option (Path × String) :=
  path.getLast?.map fun name => (path.dropLast, name)

/-- The content instance stored in an entry, with its name, when it is under `path`. -/
def childInstance (entry : Path) (resource : Resource) :
    Option (String × ContentInstance) :=
  match splitPath entry, resource with
  | some (parent, name), .contentInstance ci => if parent = path then some (name, ci) else none
  | _, _ => none

/-- The content instances under `path`, with their names. -/
def childInstances : List (String × ContentInstance) :=
  s.entries.filterMap fun e => childInstance path e.1 e.2

/-- `search(path, SCOPE_EXACT, condition, ORDER_ASC, limit)`, for a condition on content instances:
at most `limit` of them, all of them when it is not positive, by name. -/
def search (condition : ContentInstance → Bool) (limit : Int) :
    List (String × ContentInstance) :=
  let found := ((childInstances s path).filter fun c => condition c.2).insertionSort
    fun c d => c.1 ≤ d.1
  if limit > 0 then found.take limit.toNat else found

end Ong.Scl
