import Ong.Lib.FiniteMap
import Ong.Lib.Store

/-!
# Objects registered under a name

A `Registry` is a store of objects, some of which are registered under a name.  An object that is
removed from the registry stays in the store: whoever holds its reference still changes it, and
nobody else sees it.

## Main definitions

* `Registry`: each registered reference exists, and is registered under one name
* `Registry.getOrCreate`, `Registry.set`, `Registry.removeAttribute`: its operations
* `Registry.view`: what is found under a name
* `Registry.Owned`, `Registry.Belongs`: a reference that is found under one name or under none

## Main results

* the equations of `view` after each operation
* `Owned.removeAttribute`: a reference is not found under another name
* `total_set`, `total_removeAttribute`, `total_getOrCreate`: totals over the registered objects
-/

namespace Ong

/-- Objects of type `α` with identity, registered under names of type `κ`. -/
structure Registry (κ α : Type*) [DecidableEq κ] where
  objects : Store α
  attributes : AList fun _ : κ => Nat
  allocated : ∀ k r, attributes.lookup k = some r → r < objects.next
  distinct : ∀ k k' r, attributes.lookup k = some r → attributes.lookup k' = some r → k = k'

namespace Registry

variable {κ α : Type*} [DecidableEq κ] (g : Registry κ α)

/-- The registry without any object; `a` stands for the value of a reference that does not
exist. -/
def empty (a : α) : Registry κ α where
  objects := Store.empty a
  attributes := ∅
  allocated k r h := by simp at h
  distinct k k' r h := by simp at h

def getAttribute (k : κ) : Option Nat := g.attributes.lookup k

/-- The object under a reference. -/
def get (r : Nat) : α := g.objects.get r

/-- The object registered under `k`. -/
def view (k : κ) : Option α := (g.getAttribute k).map g.get

/-- A new object, registered under `k`. -/
def create (k : κ) (a : α) : Registry κ α where
  objects := g.objects.alloc a
  attributes := g.attributes.insert k g.objects.next
  allocated k' r h := by
    by_cases hk : k' = k
    · subst hk
      rw [AList.lookup_insert] at h
      cases h
      exact Nat.lt_succ_self _
    · rw [AList.lookup_insert_ne hk] at h
      exact Nat.lt_succ_of_lt (g.allocated k' r h)
  distinct k₁ k₂ r h₁ h₂ := by
    by_cases hk₁ : k₁ = k <;> by_cases hk₂ : k₂ = k
    · rw [hk₁, hk₂]
    · subst hk₁
      rw [AList.lookup_insert] at h₁
      cases h₁
      rw [AList.lookup_insert_ne hk₂] at h₂
      exact absurd (g.allocated _ _ h₂) (Nat.lt_irrefl _)
    · subst hk₂
      rw [AList.lookup_insert] at h₂
      cases h₂
      rw [AList.lookup_insert_ne hk₁] at h₁
      exact absurd (g.allocated _ _ h₁) (Nat.lt_irrefl _)
    · rw [AList.lookup_insert_ne hk₁] at h₁
      rw [AList.lookup_insert_ne hk₂] at h₂
      exact g.distinct k₁ k₂ r h₁ h₂

/-- The object registered under `k`, created when there is none, with its reference. -/
def getOrCreate (k : κ) (a : α) : Nat × Registry κ α :=
  match g.getAttribute k with
  | some r => (r, g)
  | none => (g.objects.next, g.create k a)

/-- The object under the reference `r` becomes `a`. -/
def set (r : Nat) (a : α) : Registry κ α where
  objects := g.objects.set r a
  attributes := g.attributes
  allocated := g.allocated
  distinct := g.distinct

def removeAttribute (k : κ) : Registry κ α where
  objects := g.objects
  attributes := g.attributes.erase k
  allocated k' r h := by
    by_cases hk : k' = k
    · rw [hk, AList.lookup_erase] at h
      cases h
    · rw [AList.lookup_erase_ne hk] at h
      exact g.allocated k' r h
  distinct k₁ k₂ r h₁ h₂ := by
    by_cases hk₁ : k₁ = k
    · rw [hk₁, AList.lookup_erase] at h₁
      cases h₁
    · by_cases hk₂ : k₂ = k
      · rw [hk₂, AList.lookup_erase] at h₂
        cases h₂
      · rw [AList.lookup_erase_ne hk₁] at h₁
        rw [AList.lookup_erase_ne hk₂] at h₂
        exact g.distinct k₁ k₂ r h₁ h₂

/-- `r` is found under `k` or nowhere. -/
def Owned (k : κ) (r : Nat) : Prop :=
  r < g.objects.next ∧ ∀ k', g.getAttribute k' = some r → k' = k

/-- `r` was registered under `k`, and still is or is found nowhere. -/
def Belongs (k : κ) (r : Nat) : Prop :=
  g.Owned k r ∧ (g.getAttribute k = some r ∨ g.getAttribute k = none)

variable {g}

@[simp] theorem getAttribute_set (r : Nat) (a : α) (k : κ) :
    (g.set r a).getAttribute k = g.getAttribute k := rfl

@[simp] theorem get_set_self (r : Nat) (a : α) : (g.set r a).get r = a :=
  Store.get_set_self _ _ _

@[simp] theorem set_get (r : Nat) : g.set r (g.get r) = g := by
  simp [set, get]

theorem get_set_of_ne {r r' : Nat} (h : r' ≠ r) (a : α) : (g.set r a).get r' = g.get r' :=
  Store.get_set_of_ne _ h a

@[simp] theorem getAttribute_removeAttribute_self (k : κ) :
    (g.removeAttribute k).getAttribute k = none :=
  AList.lookup_erase k g.attributes

theorem getAttribute_removeAttribute_of_ne {k k' : κ} (h : k' ≠ k) :
    (g.removeAttribute k).getAttribute k' = g.getAttribute k' :=
  AList.lookup_erase_ne h

@[simp] theorem getAttribute_create_self (k : κ) (a : α) :
    (g.create k a).getAttribute k = some g.objects.next :=
  AList.lookup_insert g.attributes

theorem getAttribute_create_of_ne {k k' : κ} (h : k' ≠ k) (a : α) :
    (g.create k a).getAttribute k' = g.getAttribute k' :=
  AList.lookup_insert_ne h

theorem view_eq_none {k : κ} : g.view k = none ↔ g.getAttribute k = none := by
  simp [view]

theorem view_of_getAttribute {k : κ} {r : Nat} (h : g.getAttribute k = some r) :
    g.view k = some (g.get r) := by
  rw [view, h, Option.map_some]

/-! ## What is found after an operation -/

theorem view_set {k : κ} {r : Nat} (h : g.getAttribute k = some r) (a : α) :
    (g.set r a).view k = some a := by
  rw [view_of_getAttribute (by simpa using h), get_set_self]

theorem view_set_of_ne {k : κ} {r : Nat} (h : g.getAttribute k ≠ some r) (a : α) :
    (g.set r a).view k = g.view k := by
  rw [view, view, getAttribute_set]
  cases hk : g.getAttribute k with
  | none => rfl
  | some r' =>
    have hr : r' ≠ r := fun e => h (hk.trans (congrArg some e))
    rw [Option.map_some, Option.map_some, get_set_of_ne hr]

theorem view_removeAttribute_self (k : κ) : (g.removeAttribute k).view k = none :=
  view_eq_none.mpr (getAttribute_removeAttribute_self k)

theorem view_removeAttribute_of_ne {k k' : κ} (h : k' ≠ k) :
    (g.removeAttribute k).view k' = g.view k' := by
  rw [view, view, getAttribute_removeAttribute_of_ne h]
  rfl

theorem view_create_self (k : κ) (a : α) : (g.create k a).view k = some a := by
  rw [view_of_getAttribute (getAttribute_create_self k a)]
  exact congrArg some (Store.get_alloc_next _ a)

theorem view_create_of_ne {k k' : κ} (h : k' ≠ k) (a : α) : (g.create k a).view k' = g.view k' := by
  rw [view, view, getAttribute_create_of_ne h]
  cases hk : g.getAttribute k' with
  | none => rfl
  | some r =>
    exact congrArg some (Store.get_alloc_of_lt _ (g.allocated k' r hk) a)

theorem getAttribute_getOrCreate (k : κ) (a : α) :
    (g.getOrCreate k a).2.getAttribute k = some (g.getOrCreate k a).1 := by
  cases h : g.getAttribute k with
  | none => simp [getOrCreate, h]
  | some r => simp [getOrCreate, h]

theorem getAttribute_getOrCreate_of_some {k k' : κ} {r : Nat} (h : g.getAttribute k' = some r)
    (a : α) : (g.getOrCreate k a).2.getAttribute k' = some r := by
  cases hk : g.getAttribute k with
  | some r' => simpa [getOrCreate, hk] using h
  | none =>
    have hne : k' ≠ k := by
      rintro rfl
      rw [hk] at h
      cases h
    simpa [getOrCreate, hk, getAttribute_create_of_ne hne] using h

theorem getAttribute_getOrCreate_of_ne {k k' : κ} (h : k' ≠ k) (a : α) :
    (g.getOrCreate k a).2.getAttribute k' = g.getAttribute k' := by
  cases hk : g.getAttribute k with
  | none => simp [getOrCreate, hk, getAttribute_create_of_ne h]
  | some r => simp [getOrCreate, hk]

theorem view_getOrCreate_of_ne {k k' : κ} (h : k' ≠ k) (a : α) :
    (g.getOrCreate k a).2.view k' = g.view k' := by
  cases hk : g.getAttribute k with
  | none => simp [getOrCreate, hk, view_create_of_ne h]
  | some r => simp [getOrCreate, hk]

theorem get_getOrCreate (k : κ) (a : α) :
    (g.getOrCreate k a).2.get (g.getOrCreate k a).1 = (g.view k).getD a := by
  cases h : g.getAttribute k with
  | none =>
    rw [view_eq_none.mpr h]
    simp only [getOrCreate, h]
    exact Store.get_alloc_next g.objects a
  | some r => simp [getOrCreate, h, view]

theorem view_getOrCreate_self (k : κ) (a : α) :
    (g.getOrCreate k a).2.view k = some ((g.view k).getD a) := by
  rw [view_of_getAttribute (getAttribute_getOrCreate k a), get_getOrCreate]

/-! ## References -/

section

variable {k : κ} {r : Nat}

theorem owned_of_getAttribute (h : g.getAttribute k = some r) : g.Owned k r :=
  ⟨g.allocated k r h, fun k' hk' => g.distinct k' k r hk' h⟩

theorem Owned.removeAttribute (h : g.Owned k r) (k₁ : κ) : (g.removeAttribute k₁).Owned k r := by
  refine ⟨h.1, fun k' hk' => h.2 k' ?_⟩
  by_cases e : k' = k₁
  · rw [e, getAttribute_removeAttribute_self] at hk'
    cases hk'
  · rwa [getAttribute_removeAttribute_of_ne e] at hk'

theorem Owned.view_set_of_ne {k' : κ} (h : g.Owned k r) (hk : k' ≠ k) (a : α) :
    (g.set r a).view k' = g.view k' :=
  Registry.view_set_of_ne (fun e => hk (h.2 k' e)) a

theorem Owned.view_set_of_none (h : g.Owned k r) (hk : g.getAttribute k = none) (a : α) (k' : κ) :
    (g.set r a).view k' = g.view k' := by
  refine Registry.view_set_of_ne (fun e => ?_) a
  rw [h.2 k' e, hk] at e
  cases e

theorem belongs_of_getAttribute (h : g.getAttribute k = some r) : g.Belongs k r :=
  ⟨owned_of_getAttribute h, .inl h⟩

theorem Belongs.removeAttribute (h : g.Belongs k r) (k₁ : κ) :
    (g.removeAttribute k₁).Belongs k r := by
  refine ⟨h.1.removeAttribute k₁, ?_⟩
  by_cases hk : k = k₁
  · rw [hk]
    exact .inr (getAttribute_removeAttribute_self k₁)
  · rw [getAttribute_removeAttribute_of_ne hk]
    exact h.2

end

section Total

variable (f : α → ℤ)

/-- The sum of `f` over the registered objects. -/
def total (g : Registry κ α) : ℤ := FiniteMap.total (fun _ r => f (g.get r)) g.attributes

theorem total_removeAttribute {k : κ} :
    total f (g.removeAttribute k) = total f g - (g.view k).elim 0 f := by
  have h := FiniteMap.total_erase (fun _ r => f (g.get r)) g.attributes k
  have hw : FiniteMap.weight (fun _ r => f (g.get r)) g.attributes k = (g.view k).elim 0 f := by
    unfold FiniteMap.weight view getAttribute
    cases g.attributes.lookup k <;> rfl
  rw [hw] at h
  exact h

/-- A change of one registered object. -/
theorem total_set {k : κ} {r : Nat} (h : g.getAttribute k = some r) (a : α) :
    total f (g.set r a) = total f g - f (g.get r) + f a := by
  have hold := total_removeAttribute f (g := g) (k := k)
  have hnew := total_removeAttribute f (g := g.set r a) (k := k)
  rw [view_of_getAttribute h, Option.elim_some] at hold
  rw [view_set h, Option.elim_some] at hnew
  have hsame : total f ((g.set r a).removeAttribute k) = total f (g.removeAttribute k) := by
    refine FiniteMap.total_congr fun k' r' hk' => ?_
    have hne : k' ≠ k := by
      rintro rfl
      rw [show ((g.set r a).removeAttribute k').attributes.lookup k' = none from
        AList.lookup_erase _ _] at hk'
      cases hk'
    have hr' : g.getAttribute k' = some r' := (AList.lookup_erase_ne hne).symm.trans hk'
    have hrr : r' ≠ r := by
      rintro rfl
      exact hne (g.distinct _ _ _ hr' h)
    exact congrArg f (get_set_of_ne hrr a)
  omega

theorem total_create {k : κ} (h : g.getAttribute k = none) (a : α) :
    total f (g.create k a) = total f g + f a := by
  have hnew := total_removeAttribute f (g := g.create k a) (k := k)
  rw [view_create_self, Option.elim_some] at hnew
  have hold := total_removeAttribute f (g := g) (k := k)
  rw [view_eq_none.mpr h, Option.elim_none, sub_zero] at hold
  have hsame : total f ((g.create k a).removeAttribute k) = total f (g.removeAttribute k) := by
    have hattr : ((g.create k a).removeAttribute k).attributes = (g.removeAttribute k).attributes := by
      apply AList.ext
      exact List.kerase_cons_eq rfl
    unfold total
    rw [hattr]
    refine FiniteMap.total_congr fun k' r' hk' => ?_
    have hne : k' ≠ k := by
      rintro rfl
      rw [show (g.removeAttribute k').attributes.lookup k' = none from
        AList.lookup_erase _ _] at hk'
      cases hk'
    have hr' : g.getAttribute k' = some r' := (AList.lookup_erase_ne hne).symm.trans hk'
    exact congrArg f (Store.get_alloc_of_lt _ (g.allocated k' r' hr') a)
  omega

/-- An object that counts for nothing is created unnoticed. -/
theorem total_getOrCreate {a : α} (ha : f a = 0) (k : κ) :
    total f (g.getOrCreate k a).2 = total f g := by
  cases h : g.getAttribute k with
  | some r => simp [getOrCreate, h]
  | none =>
    simp only [getOrCreate, h]
    rw [total_create f h, ha, add_zero]

end Total

end Registry

end Ong
