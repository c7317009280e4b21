import Ong.Scl.ContentInstancesAccounting

/-!
# What an event creates and deletes

## Main results

* `mem_childInstances_batch`: the instances stored after a batch
* `creation_transaction`: a creation that is not refused queues its instances, and its timer is for
  the oldest of them
-/

namespace Ong.Scl

open M2M ContentInstances List

/-- The instances that are created, under their names. -/
def named (cs : List ContentInstance) : List (String × ContentInstance) := cs.map fun ci => (ci.id, ci)

/-- A creation: its instances, when it happens, what fails, and its transaction. -/
structure Creation where
  instances : List ContentInstance
  now : Int
  faults : Faults
  transaction : Except Failure SclTransaction

/-- The instance that a representation asks for. -/
def ContentInstances.External.wanted (e : External) : ContentInstance :=
  ⟨e.id.getD "", e.creationTime, e.contentSize⟩

/-- The creation that an event asks for. -/
def ContentInstancesEvent.creation? (storage : Storage) (path : Path) :
    ContentInstancesEvent → Option Creation
  | .createFromContentInstance id date contentSize now faults =>
    some ⟨[⟨id.getD date, now, contentSize⟩], now, faults,
      doCreateIndicationFromContentInstance storage path id date contentSize now⟩
  | .createFromBytes date contentSize now faults =>
    some ⟨[⟨date, now, contentSize⟩], now, faults,
      doCreateIndicationFromBytes storage path date contentSize now⟩
  | .createFromExternal e now faults =>
    some ⟨[e.wanted], now, faults,
      doCreateIndicationFromExternalContentInstance storage path e now⟩
  | .createFromExternals es now faults =>
    some ⟨es.map External.wanted, now, faults,
      doCreateIndicationFromExternalContentInstances storage path es now⟩
  | _ => none

/-- The date and the id of an oldest one of the instances. -/
def IsOldest (instances : List ContentInstance) (last : Option (Int × String)) : Prop :=
  match last with
  | none => instances = []
  | some (lastDate, lastId) => ∃ ci ∈ instances, ci.creationTime = lastDate ∧ ci.id = lastId ∧
      ∀ ci' ∈ instances, lastDate ≤ ci'.creationTime

section Batches

variable {path : Path} {storage storage' : Storage} {cs : List ContentInstance}

theorem mem_named {c : String × ContentInstance} : c ∈ named cs ↔ c.2 ∈ cs ∧ c.2.id = c.1 := by
  obtain ⟨name, ci⟩ := c
  unfold named
  rw [mem_map]
  constructor
  · rintro ⟨ci', hci', heq⟩
    obtain ⟨rfl, rfl⟩ := Prod.mk.inj heq
    exact ⟨hci', rfl⟩
  · rintro ⟨hci, hid⟩
    exact ⟨ci, hci, by rw [hid]⟩

/-- **The instances after a batch** are those that it creates, and those that were stored and that
it does not delete. -/
theorem mem_childInstances_batch {names : List String} {r : ContentInstances}
    (hbatch : Batch cs names r path storage storage') (c : String × ContentInstance) :
    c ∈ childInstances storage' path ↔
      c ∈ named cs ∨ (c ∈ childInstances storage path ∧ c.1 ∉ names) := by
  obtain ⟨name, ci⟩ := c
  rw [mem_childInstances, mem_childInstances, mem_named]
  by_cases hcreated : ∃ ci' ∈ cs, ci'.id = name
  · obtain ⟨ci', hci', rfl⟩ := hcreated
    rw [hbatch.created ci' hci', hbatch.free ci' hci']
    constructor
    · intro h
      cases h
      exact .inl ⟨hci', rfl⟩
    · rintro (⟨hci, hid⟩ | ⟨hnone, -⟩)
      · rw [← hbatch.created ci hci, hid, hbatch.created ci' hci']
      · cases hnone
  · have hother : ∀ ci' ∈ cs, ci'.id ≠ name := fun ci' hci' hid => hcreated ⟨ci', hci', hid⟩
    by_cases hname : name ∈ names
    · rw [hbatch.deleted name hname]
      constructor
      · nofun
      · rintro (⟨hci, hid⟩ | ⟨-, hname'⟩)
        · exact absurd hid (hother ci hci)
        · exact absurd hname hname'
    · rw [hbatch.kept name hname hother]
      constructor
      · intro h
        exact .inr ⟨h, hname⟩
      · rintro (⟨hci, hid⟩ | ⟨h, -⟩)
        · exact absurd hid (hother ci hci)
        · exact h

end Batches

section Creations

variable {config : SclConfig} {it : IterationOrder} {path : Path} {storage : Storage}
  {faults : Faults} {e : ContentInstancesEvent} {c : Creation}

theorem contentInstance_eq {e : External} {ci : ContentInstance}
    (h : e.contentInstance storage path = .ok ci) : ci = e.wanted := by
  unfold External.contentInstance at h
  split at h
  · cases h
  · next id hid =>
    split at h
    · rw [(newInstance_eq_ok h).2, External.wanted, hid]
      rfl
    · cases h

theorem mapM_contentInstance_eq {es : List External} {instances : List ContentInstance}
    (h : (es.mapM fun e : External => e.contentInstance storage path) = .ok instances) :
    instances = es.map External.wanted := by
  induction es generalizing instances with
  | nil =>
    cases h
    rfl
  | cons e es ih =>
    rw [mapM_cons] at h
    obtain ⟨ci, hci, h⟩ := bind_eq_ok h
    obtain ⟨cis, hcis, h⟩ := bind_eq_ok h
    cases h
    rw [map_cons, ← ih hcis, ← contentInstance_eq hci]

theorem isOldest_singleton (ci : ContentInstance) :
    IsOldest [ci] (some (ci.creationTime, ci.id)) := by
  refine ⟨ci, mem_singleton_self ci, rfl, rfl, fun ci' hci' => ?_⟩
  rw [mem_singleton.mp hci']

theorem isOldest_oldest (instances : List ContentInstance) : IsOldest instances (oldest instances) := by
  induction instances using reverseRecOn with
  | nil => rfl
  | append_singleton instances ci ih =>
    unfold oldest at ih ⊢
    rw [foldl_concat]
    generalize instances.foldl _ none = last at ih
    rcases last with _ | ⟨lastDate, lastId⟩
    · have hnil : instances = [] := ih
      rw [hnil]
      exact isOldest_singleton ci
    · obtain ⟨first, hfirst, hdate, hid, hle⟩ := ih
      dsimp only
      split
      · next hlater =>
        refine ⟨ci, mem_append_right _ (mem_singleton_self ci), rfl, rfl, ?_⟩
        intro ci' hci'
        rcases mem_append.mp hci' with hci' | hci'
        · have := hle ci' hci'
          omega
        · rw [mem_singleton.mp hci']
      · next hearlier =>
        refine ⟨first, mem_append_left _ hfirst, hdate, hid, fun ci' hci' => ?_⟩
        rcases mem_append.mp hci' with hci' | hci'
        · exact hle ci' hci'
        · rw [mem_singleton.mp hci']
          omega

/-- **A creation that is not refused** queues its instances. -/
theorem creation_transaction (hc : e.creation? storage path = some c) {t : SclTransaction}
    (ht : c.transaction = .ok t) :
    ∃ last nb size, IsOldest c.instances last ∧
      createTransaction storage path c.instances last nb size c.now = .ok t := by
  rcases e with ⟨id, date, contentSize, now, faults⟩ | ⟨date, contentSize, now, faults⟩ |
    ⟨e, now, faults⟩ | ⟨es, now, faults⟩ | ⟨id, now, faults⟩ | ⟨timer, now, faults⟩ |
    ⟨now, fault, faults⟩
  · cases hc
    unfold doCreateIndicationFromContentInstance at ht
    dsimp only at ht
    split at ht
    · obtain ⟨ci, hci, ht⟩ := bind_eq_ok ht
      obtain ⟨-, rfl⟩ := newInstance_eq_ok hci
      exact ⟨_, _, _, isOldest_singleton _, ht⟩
    · cases ht
  · cases hc
    obtain ⟨ci, hci, ht⟩ := bind_eq_ok ht
    obtain ⟨-, rfl⟩ := newInstance_eq_ok hci
    exact ⟨_, _, _, isOldest_singleton _, ht⟩
  · cases hc
    obtain ⟨ci, hci, ht⟩ := bind_eq_ok ht
    rw [← contentInstance_eq hci]
    exact ⟨_, _, _, isOldest_singleton _, ht⟩
  · cases hc
    obtain ⟨instances, hinstances, ht⟩ := bind_eq_ok ht
    rw [← mapM_contentInstance_eq hinstances]
    exact ⟨_, _, _, isOldest_oldest _, ht⟩
  all_goals cases hc

theorem step_creation {w : World} (hc : e.creation? w.storage path = some c) :
    contentInstancesStep config it path w e =
      createContentInstances config it c.transaction c.faults w := by
  cases e <;> cases hc <;> rfl

theorem run_storage_of_refused (config : SclConfig) (it : IterationOrder) (t : SclTransaction)
    (h : faults.batchModify = true) (w : World) :
    (SclTransaction.run config it faults t w).storage = w.storage := by
  cases hexecuted : (t.execute config it faults w.storage w.volatile).executed with
  | true =>
    have haccepted := SclTransaction.batchModify_of_executed hexecuted
    rw [h] at haccepted
    cases haccepted
  | false =>
    unfold SclTransaction.run
    rw [SclTransaction.execute_of_failed hexecuted]

end Creations

end Ong.Scl
