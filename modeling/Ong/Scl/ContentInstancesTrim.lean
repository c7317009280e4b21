import Ong.Scl.ContentInstances

/-!
# What a creation trims

## Main results

* `instanceTotal_creates`, `instanceTotal_deletes`: what batches do to a sum
* `trim_trims`, `trim_nb_le`, `trim_size_le`: what the two trimmings give
-/

namespace Ong.Scl

open M2M ContentInstances FiniteMap List AList

/-- What a resource counts for in a sum over the content instances under `path`. -/
def instanceWeight (g : ContentInstance → ℤ) (path : Path) (p : Path) (resource : Resource) : ℤ :=
  (childInstance path p resource).elim 0 fun c => g c.2

/-- The sum of `g` over the content instances under `path`. -/
def instanceTotal (g : ContentInstance → ℤ) (storage : Storage) (path : Path) : ℤ :=
  FiniteMap.total (instanceWeight g path) storage

def nbInstances (storage : Storage) (path : Path) : ℤ := instanceTotal (fun _ => 1) storage path

def byteSize (storage : Storage) (path : Path) : ℤ :=
  instanceTotal (fun ci => ci.contentSize) storage path

section Children

variable {storage storage' : Storage} {path p : Path} {name : String} {ci : ContentInstance}
  {resource : Resource} {g : ContentInstance → ℤ}

theorem childPath_inj {id id' : String} (h : childPath path id = childPath path id') : id = id' :=
  append_singleton_inj.mp h |>.2

theorem childPath_ne (path : Path) (id : String) :
    childPath path id ≠ path ∧ childPath path id ≠ path.dropLast := by
  refine ⟨fun h => ?_, fun h => ?_⟩
  · have := congrArg length h
    simp [childPath] at this
  · have := congrArg length h
    simp [childPath] at this
    omega

theorem childInstance_eq_some :
    childInstance path p resource = some (name, ci) ↔
      p = childPath path name ∧ resource = .contentInstance ci := by
  constructor
  · intro h
    unfold childInstance at h
    split at h
    · next parent name' ci' hsplit =>
      split at h
      · next hparent =>
        cases h
        obtain ⟨last, hlast, heq⟩ := Option.map_eq_some_iff.mp hsplit
        cases heq
        refine ⟨?_, rfl⟩
        rw [← hparent]
        exact (dropLast_append_getLast? _ hlast).symm
      · cases h
    · cases h
  · rintro ⟨rfl, rfl⟩
    simp [childInstance, splitPath, childPath]

theorem mem_childInstances :
    (name, ci) ∈ childInstances storage path ↔
      storage.lookup (childPath path name) = some (.contentInstance ci) := by
  unfold childInstances
  rw [mem_filterMap]
  constructor
  · rintro ⟨e, he, hchild⟩
    obtain ⟨hp, hresource⟩ := childInstance_eq_some.mp hchild
    rw [← hp, ← hresource]
    exact mem_lookup_iff.mpr he
  · intro h
    exact ⟨_, mem_lookup_iff.mp h, childInstance_eq_some.mpr ⟨rfl, rfl⟩⟩

theorem instanceTotal_eq_sum (g : ContentInstance → ℤ) (storage : Storage) (path : Path) :
    instanceTotal g storage path = ((childInstances storage path).map fun c => g c.2).sum := by
  unfold instanceTotal FiniteMap.total childInstances
  induction storage.entries with
  | nil => rfl
  | cons e entries ih =>
    rw [map_cons, sum_cons, ih, filterMap_cons, instanceWeight]
    cases childInstance path e.1 e.2 with
    | none => exact zero_add _
    | some c => rw [map_cons, sum_cons, Option.elim_some]

theorem length_childInstances (storage : Storage) (path : Path) :
    ((childInstances storage path).length : ℤ) = nbInstances storage path := by
  rw [nbInstances, instanceTotal_eq_sum]
  simp

theorem weight_childPath (h : storage.lookup (childPath path name) = some (.contentInstance ci)) :
    weight (instanceWeight g path) storage (childPath path name) = g ci := by
  rw [weight_of_lookup h, instanceWeight, childInstance_eq_some.mpr ⟨rfl, rfl⟩,
    Option.elim_some]

theorem instanceWeight_of_ne (h : ∀ ci, resource ≠ .contentInstance ci) :
    instanceWeight g path p resource = 0 := by
  unfold instanceWeight
  cases hchild : childInstance path p resource with
  | none => rfl
  | some c => exact absurd (childInstance_eq_some.mp hchild).2 (h c.2)

theorem instanceTotal_insert_self {r r' : ContentInstances}
    (h : storage.lookup path = some (.contentInstances r)) :
    instanceTotal g (storage.insert path (.contentInstances r')) path =
      instanceTotal g storage path := by
  rw [instanceTotal, total_insert, weight_of_lookup h,
    instanceWeight_of_ne (by nofun), instanceWeight_of_ne (by nofun), sub_zero, add_zero]
  rfl

/-! ## Searches -/

variable {condition : ContentInstance → Bool} {limit : Int} {c : String × ContentInstance}
  {found : List (String × ContentInstance)}

theorem mem_search (h : (name, ci) ∈ search storage path condition limit) :
    storage.lookup (childPath path name) = some (.contentInstance ci) ∧ condition ci = true := by
  have hfound : (name, ci) ∈ ((childInstances storage path).filter fun c => condition
      c.2).insertionSort fun c d => c.1 ≤ d.1 := by
    unfold search at h
    split at h
    · exact mem_of_mem_take h
    · exact h
  rw [mem_insertionSort, mem_filter, mem_childInstances] at hfound
  exact hfound

theorem eq_of_name_eq {d : String × ContentInstance} (hc : c ∈ childInstances storage path)
    (hd : d ∈ childInstances storage path) (h : c.1 = d.1) : c = d := by
  obtain ⟨name, ci⟩ := c
  obtain ⟨name', ci'⟩ := d
  subst h
  have hlookup := mem_childInstances.mp hc
  rw [mem_childInstances.mp hd] at hlookup
  have hsame : ci' = ci := by injection Option.some.inj hlookup
  rw [hsame]

/-- The instances that meet the condition, by name: a search finds the first of them. -/
def sorted (storage : Storage) (path : Path) (condition : ContentInstance → Bool) :
    List (String × ContentInstance) :=
  ((childInstances storage path).filter fun c => condition c.2).insertionSort fun c d => c.1 ≤ d.1

theorem mem_sorted :
    c ∈ sorted storage path condition ↔ c ∈ childInstances storage path ∧ condition c.2 = true := by
  unfold sorted
  rw [mem_insertionSort, mem_filter]

theorem pairwise_sorted (storage : Storage) (path : Path) (condition : ContentInstance → Bool) :
    (sorted storage path condition).Pairwise fun c d => c.1 ≤ d.1 :=
  pairwise_insertionSort (fun c d : String × ContentInstance => c.1 ≤ d.1) _

theorem search_isPrefix (storage : Storage) (path : Path) (condition : ContentInstance → Bool)
    (limit : Int) : search storage path condition limit <+: sorted storage path condition := by
  unfold search
  split
  · exact take_prefix _ _
  · exact prefix_rfl

theorem search_eq_nil (h : search storage path condition limit = []) :
    ∀ d ∈ childInstances storage path, condition d.2 = false := by
  have hsorted : sorted storage path condition = [] := by
    unfold search at h
    split at h
    · rcases take_eq_nil_iff.mp h with hzero | hnil
      · omega
      · exact hnil
    · exact h
  intro d hd
  refine Bool.eq_false_iff.mpr fun hcondition => ?_
  have hmem := mem_sorted.mpr ⟨hd, hcondition⟩
  rw [hsorted] at hmem
  cases hmem

theorem search_first (h : search storage path condition limit = c :: found) :
    c ∈ childInstances storage path ∧ condition c.2 = true ∧
      ∀ d ∈ childInstances storage path, condition d.2 = true → c.1 ≤ d.1 := by
  obtain ⟨rest, hrest⟩ := search_isPrefix storage path condition limit
  rw [h, cons_append] at hrest
  have hc : c ∈ sorted storage path condition := by
    rw [← hrest]
    exact mem_cons_self
  obtain ⟨hmem, hcondition⟩ := mem_sorted.mp hc
  refine ⟨hmem, hcondition, fun d hd hcondition' => ?_⟩
  have hpairwise := pairwise_sorted storage path condition
  have hd := mem_sorted.mpr ⟨hd, hcondition'⟩
  rw [← hrest] at hpairwise hd
  rcases mem_cons.mp hd with rfl | hd
  · exact String.le_refl _
  · exact rel_of_pairwise_cons hpairwise hd

theorem length_search (storage : Storage) (path : Path) (hlimit : 0 < limit)
    (hle : limit ≤ nbInstances storage path) :
    ((search storage path (fun _ => true) limit).length : ℤ) = limit := by
  rw [← length_childInstances] at hle
  unfold search
  rw [if_pos hlimit, length_take, length_insertionSort, filter_true]
  omega

theorem weights_search
    (h : ∀ c ∈ found, storage.lookup (childPath path c.1) = some (.contentInstance c.2)) :
    ((found.map Prod.fst).map fun name =>
      weight (instanceWeight g path) storage (childPath path name)) =
        found.map fun c => g c.2 := by
  rw [map_map]
  exact map_congr_left fun c hc => weight_childPath (h c hc)

/-! ## Batches -/

section

variable {cs : List ContentInstance}
  (h : batchModify storage (cs.map fun ci => .create (childPath path ci.id) (.contentInstance ci)) = some storage')

include h

/-- The creations of a batch. -/
theorem instanceTotal_creates :
    instanceTotal g storage' path = instanceTotal g storage path + (cs.map g).sum ∧
      (∀ ci ∈ cs, storage.lookup (childPath path ci.id) = none) ∧
      ∀ id ci, storage'.lookup (childPath path id) = some (.contentInstance ci) →
        ci ∈ cs ∨ storage.lookup (childPath path id) = some (.contentInstance ci) := by
  induction cs generalizing storage with
  | nil =>
    cases h
    exact ⟨(add_zero _).symm, nofun, fun _ _ h => .inr h⟩
  | cons ci cs ih =>
    obtain ⟨storage₁, happly, h⟩ := Option.bind_eq_some_iff.mp h
    obtain ⟨hfree, hinsert⟩ := apply_create_eq_some.mp happly
    obtain ⟨htotal, hnone, hlookup⟩ := ih h
    have hinsertTotal : instanceTotal g storage₁ path = instanceTotal g storage path + g ci := by
      rw [← hinsert, instanceTotal, total_insert_of_lookup_none _ hfree, instanceWeight,
        childInstance_eq_some.mpr ⟨rfl, rfl⟩, Option.elim_some]
      rfl
    refine ⟨?_, fun ci' hci' => ?_, fun id ci' hci' => ?_⟩
    · rw [htotal, hinsertTotal, map_cons, sum_cons]
      omega
    · rcases mem_cons.mp hci' with rfl | hci'
      · exact hfree
      · have := hnone ci' hci'
        rw [← hinsert] at this
        by_cases heq : childPath path ci'.id = childPath path ci.id
        · rw [heq, lookup_insert] at this
          cases this
        · rwa [lookup_insert_ne heq] at this
    · rcases hlookup id ci' hci' with hmem | hlookup
      · exact .inl (mem_cons_of_mem _ hmem)
      · rw [← hinsert] at hlookup
        by_cases heq : childPath path id = childPath path ci.id
        · rw [heq, lookup_insert] at hlookup
          cases hlookup
          exact .inl mem_cons_self
        · exact .inr (by rwa [lookup_insert_ne heq] at hlookup)

theorem lookup_creates :
    ∀ ci ∈ cs, storage'.lookup (childPath path ci.id) = some (.contentInstance ci) := by
  induction cs generalizing storage with
  | nil => nofun
  | cons ci cs ih =>
    obtain ⟨storage₁, happly, hrest⟩ := Option.bind_eq_some_iff.mp h
    intro ci' hci'
    rcases mem_cons.mp hci' with rfl | hci'
    · have hstored : storage₁.lookup (childPath path ci'.id) = some (.contentInstance ci') := by
        rw [← (apply_create_eq_some.mp happly).2, lookup_insert]
      rw [← hstored]
      refine lookup_batchModify_of_notMem hrest fun m hm heq => ?_
      obtain ⟨ci, hci, rfl⟩ := mem_map.mp hm
      change childPath path ci'.id = childPath path ci.id at heq
      rw [heq, (instanceTotal_creates (g := fun _ => 0) hrest).2.1 ci hci] at hstored
      cases hstored
    · exact ih hrest ci' hci'

end

section

variable {names : List String}
  (h : batchModify storage (names.map fun name => .delete (childPath path name)) = some storage')

include h

/-- The deletions of a batch, each of which must find its resource. -/
theorem instanceTotal_deletes :
    instanceTotal g storage' path = instanceTotal g storage path - (names.map fun name =>
      weight (instanceWeight g path) storage (childPath path name)).sum ∧
      (∀ name ∈ names, storage.lookup (childPath path name) ≠ none) ∧
      ∀ p resource, storage'.lookup p = some resource → storage.lookup p = some resource := by
  -- the induction is over the names, with the storage after each deletion
  induction names generalizing storage with
  | nil =>
    cases h
    exact ⟨(sub_zero _).symm, nofun, fun _ _ h => h⟩
  | cons name names ih =>
    obtain ⟨storage₁, happly, h⟩ := Option.bind_eq_some_iff.mp h
    obtain ⟨⟨resource, hresource⟩, herase⟩ := apply_delete_eq_some.mp happly
    obtain ⟨htotal, hstored, hlookup⟩ := ih h
    rw [← herase] at htotal hstored hlookup
    have hother : ∀ name' ∈ names, childPath path name' ≠ childPath path name := by
      intro name' hname' heq
      refine hstored name' hname' ?_
      rw [heq, lookup_erase]
    refine ⟨?_, fun name' hname' => ?_, fun p resource' hp => ?_⟩
    · have hsame : (names.map fun name' => weight (instanceWeight g path)
          (storage.erase (childPath path name)) (childPath path name')) =
          names.map fun name' =>
            weight (instanceWeight g path) storage (childPath path name') := by
        refine map_congr_left fun name' hname' => ?_
        rw [weight, lookup_erase_ne (hother name' hname'), weight]
      rw [htotal, hsame, instanceTotal, total_erase, map_cons, sum_cons]
      unfold instanceTotal
      omega
    · rcases mem_cons.mp hname' with rfl | hname'
      · rw [hresource]
        exact Option.some_ne_none _
      · have := hstored name' hname'
        rwa [lookup_erase_ne (hother name' hname')] at this
    · have hp' := hlookup p resource' hp
      by_cases heq : p = childPath path name
      · rw [heq, lookup_erase] at hp'
        cases hp'
      · rwa [lookup_erase_ne heq] at hp'

theorem lookup_deletes : ∀ name ∈ names, storage'.lookup (childPath path name) = none := by
  intro name hname
  induction names generalizing storage with
  | nil => cases hname
  | cons first names ih =>
    obtain ⟨storage₁, happly, hrest⟩ := Option.bind_eq_some_iff.mp h
    by_cases hmem : name ∈ names
    · exact ih hrest hmem
    · rcases mem_cons.mp hname with rfl | hmem'
      · rw [lookup_batchModify_of_notMem hrest, ← (apply_delete_eq_some.mp happly).2,
          lookup_erase]
        intro m hm heq
        obtain ⟨name', hname', rfl⟩ := mem_map.mp hm
        rw [childPath_inj heq] at hmem
        exact hmem hname'
      · exact absurd hmem' hmem

end

theorem sum_weights_one {names : List String}
    (h : ∀ name ∈ names, ∃ ci, storage.lookup (childPath path name) = some (.contentInstance ci)) :
    (names.map fun name =>
      weight (instanceWeight (fun _ => 1) path) storage (childPath path name)).sum =
        names.length := by
  induction names with
  | nil => rfl
  | cons name names ih =>
    obtain ⟨⟨ci, hci⟩, hnames⟩ := forall_mem_cons.mp h
    rw [map_cons, sum_cons, ih hnames, weight_childPath hci, length_cons]
    push_cast
    omega

/-- What a batch does that creates instances, deletes others, then updates the collection. -/
structure Batch (cs : List ContentInstance) (names : List String) (r : ContentInstances)
    (path : Path) (storage storage' : Storage) : Prop where
  collection : storage'.lookup path = some (.contentInstances r)
  other : ∀ p ≠ path, (∀ name, p ≠ childPath path name) → storage'.lookup p = storage.lookup p
  total : ∀ g, instanceTotal g storage' path = instanceTotal g storage path + (cs.map g).sum -
    (names.map fun name =>
      FiniteMap.weight (instanceWeight g path) storage (childPath path name)).sum
  instances : ∀ id ci, storage'.lookup (childPath path id) = some (.contentInstance ci) →
    ci ∈ cs ∨ storage.lookup (childPath path id) = some (.contentInstance ci)
  created : ∀ ci ∈ cs, storage'.lookup (childPath path ci.id) = some (.contentInstance ci)
  deleted : ∀ name ∈ names, storage'.lookup (childPath path name) = none
  kept : ∀ name ∉ names, (∀ ci ∈ cs, ci.id ≠ name) →
    storage'.lookup (childPath path name) = storage.lookup (childPath path name)
  free : ∀ ci ∈ cs, storage.lookup (childPath path ci.id) = none

theorem batch_of_batchModify {cs : List ContentInstance} {names : List String}
    {r r' : ContentInstances} (hr : storage.lookup path = some (.contentInstances r))
    (hstored : ∀ name ∈ names, ∃ ci,
      storage.lookup (childPath path name) = some (.contentInstance ci))
    (h : batchModify storage
      (cs.map (fun ci => .create (childPath path ci.id) (.contentInstance ci)) ++
        names.map (fun name => .delete (childPath path name)) ++
          [.update path (.contentInstances r')]) = some storage') :
    Batch cs names r' path storage storage' := by
  rw [batchModify_append, Option.bind_eq_some_iff] at h
  obtain ⟨storage₂, h, hupdate⟩ := h
  rw [batchModify_append, Option.bind_eq_some_iff] at h
  obtain ⟨storage₁, hcreates, hdeletes⟩ := h
  obtain ⟨_, happly, hnil⟩ := Option.bind_eq_some_iff.mp hupdate
  cases hnil
  rw [← (apply_update_eq_some.mp happly).2]
  have hother₁ : ∀ p, (∀ name, p ≠ childPath path name) → storage₁.lookup p = storage.lookup p := by
    refine fun p hp => lookup_batchModify_of_notMem hcreates fun m hm => ?_
    obtain ⟨ci, -, rfl⟩ := mem_map.mp hm
    exact hp ci.id
  have hother₂ : ∀ p, (∀ name, p ≠ childPath path name) →
      storage₂.lookup p = storage₁.lookup p := by
    refine fun p hp => lookup_batchModify_of_notMem hdeletes fun m hm => ?_
    obtain ⟨name, -, rfl⟩ := mem_map.mp hm
    exact hp name
  have hself : ∀ name, path ≠ childPath path name := fun name => (childPath_ne path name).1.symm
  have hcollection : storage₂.lookup path = some (.contentInstances r) := by
    rw [hother₂ path hself, hother₁ path hself, hr]
  have hinstances : ∀ name, childPath path name ≠ path := fun name => (childPath_ne path name).1
  constructor
  case collection => exact lookup_insert _
  case other =>
    intro p hp hname
    rw [lookup_insert_ne hp, hother₂ p hname, hother₁ p hname]
  case total =>
    intro g
    rw [instanceTotal_insert_self hcollection, (instanceTotal_deletes hdeletes).1,
      (instanceTotal_creates hcreates).1]
    have hsame : (names.map fun name =>
        weight (instanceWeight g path) storage₁ (childPath path name)) =
        names.map fun name =>
          weight (instanceWeight g path) storage (childPath path name) := by
      refine map_congr_left fun name hname => ?_
      unfold weight
      rw [lookup_batchModify_of_notMem hcreates]
      intro m hm heq
      obtain ⟨ci, hci, rfl⟩ := mem_map.mp hm
      obtain ⟨ci', hci'⟩ := hstored name hname
      change childPath path name = childPath path ci.id at heq
      rw [heq, (instanceTotal_creates (g := g) hcreates).2.1 ci hci] at hci'
      cases hci'
    rw [hsame]
  case instances =>
    intro id ci hci
    rw [lookup_insert_ne (hinstances id)] at hci
    have hci := (instanceTotal_deletes (g := fun _ => 0) hdeletes).2.2 _ _ hci
    exact (instanceTotal_creates (g := fun _ => 0) hcreates).2.2 id ci hci
  case created =>
    intro ci hci
    rw [lookup_insert_ne (hinstances ci.id), lookup_batchModify_of_notMem hdeletes]
    · exact lookup_creates hcreates ci hci
    · intro m hm heq
      obtain ⟨name, hname, rfl⟩ := mem_map.mp hm
      obtain ⟨ci', hci'⟩ := hstored name hname
      change childPath path ci.id = childPath path name at heq
      rw [← heq, (instanceTotal_creates (g := fun _ => 0) hcreates).2.1 ci hci] at hci'
      cases hci'
  case deleted =>
    intro name hname
    rw [lookup_insert_ne (hinstances name)]
    exact lookup_deletes hdeletes name hname
  case kept =>
    intro name hname hcs
    rw [lookup_insert_ne (hinstances name), lookup_batchModify_of_notMem hdeletes,
      lookup_batchModify_of_notMem hcreates]
    · intro m hm heq
      obtain ⟨ci, hci, rfl⟩ := mem_map.mp hm
      exact hcs ci hci (childPath_inj heq).symm
    · intro m hm heq
      obtain ⟨name', hname', rfl⟩ := mem_map.mp hm
      rw [childPath_inj heq] at hname
      exact hname hname'
  case free => exact (instanceTotal_creates (g := fun _ => 0) hcreates).2.1

section

variable {r r' : ContentInstances} (hr : storage.lookup path = some (.contentInstances r))

include hr

theorem batch_timeout {id : String} {ci : ContentInstance}
    (hci : storage.lookup (childPath path id) = some (.contentInstance ci))
    (h : batchModify storage [.delete (childPath path id), .update path (.contentInstances r')] =
      some storage') : Batch [] [id] r' path storage storage' := by
  refine batch_of_batchModify hr (fun name hname => ?_) h
  rw [mem_singleton.mp hname]
  exact ⟨ci, hci⟩

theorem batch_found {found : List (String × ContentInstance)}
    (hfound : ∀ e ∈ found, e ∈ childInstances storage path)
    (h : batchModify storage (found.map (fun e => .delete (childPath path e.1)) ++
      [.update path (.contentInstances r')]) = some storage') :
    Batch [] (found.map Prod.fst) r' path storage storage' := by
  refine batch_of_batchModify hr (fun name hname => ?_) ?_
  · obtain ⟨e, he, rfl⟩ := mem_map.mp hname
    exact ⟨e.2, mem_childInstances.mp (hfound e he)⟩
  · rw [map_map]
    exact h

end

end Children

/-! ## The trimmings -/

variable {page : List (String × ContentInstance)} {fuel : Nat}

section Trims

variable {storage : Storage} {path : Path} {nb size maxNumberOfInstances maxByteSize : ℤ}
  {t t' : Trimming}

/-- The sizes of some instances. -/
def sizeOf (storage : Storage) (path : Path) (names : List String) : ℤ :=
  (names.map fun name => FiniteMap.weight (instanceWeight (fun ci => ci.contentSize) path) storage
    (childPath path name)).sum

theorem sizeOf_append (names names' : List String) :
    sizeOf storage path (names ++ names') = sizeOf storage path names + sizeOf storage path names' := by
  unfold sizeOf
  rw [map_append, sum_append]

theorem sizeOf_singleton {name : String} {ci : ContentInstance}
    (h : storage.lookup (childPath path name) = some (.contentInstance ci)) :
    sizeOf storage path [name] = ci.contentSize := by
  unfold sizeOf
  rw [map_singleton, sum_singleton, weight_childPath h]

/-- Of `nb` instances of size `size`, the variables count those that are not to be deleted; unless
there is no limit, they are at most as many as it says. -/
structure Trims (storage : Storage) (path : Path) (nb size maxNumberOfInstances : ℤ)
    (t : Trimming) : Prop where
  nb_eq : t.currentNbOfInstances = toLong (nb - t.deleted.length)
  size_eq : t.currentByteSize = toLong (size - sizeOf storage path t.deleted)
  nb_le : 0 < maxNumberOfInstances → nb - t.deleted.length ≤ maxNumberOfInstances

/-- The instances to delete are found under the collection. -/
def AllStored (storage : Storage) (path : Path) (t : Trimming) : Prop :=
  ∀ name ∈ t.deleted, ∃ ci, storage.lookup (childPath path name) = some (.contentInstance ci)

theorem AllStored.trimNb (h : AllStored storage path t) :
    AllStored storage path (trimNb storage path maxNumberOfInstances t) := by
  unfold ContentInstances.trimNb
  split
  · intro name hname
    rcases mem_append.mp hname with hname | hname
    · exact h name hname
    · obtain ⟨c, hc, rfl⟩ := mem_map.mp hname
      exact ⟨c.2, (mem_search hc).1⟩
  · exact h

theorem AllStored.trimPage (h : AllStored storage path t)
    (hpage : ∀ c ∈ page, storage.lookup (childPath path c.1) = some (.contentInstance c.2)) :
    AllStored storage path (trimPage maxByteSize page t) := by
  induction page generalizing t with
  | nil => exact h
  | cons c page ih =>
    obtain ⟨name, ci⟩ := c
    obtain ⟨hfirst, hrest⟩ := forall_mem_cons.mp hpage
    have hone : ∀ name' ∈ t.deleted ++ [name], ∃ ci,
        storage.lookup (childPath path name') = some (.contentInstance ci) := by
      intro name' hname'
      rcases mem_append.mp hname' with hname' | hname'
      · exact h name' hname'
      · rw [mem_singleton.mp hname']
        exact ⟨ci, hfirst⟩
    unfold ContentInstances.trimPage
    dsimp only
    split
    · exact hone
    · exact ih hone hrest

/-- What every page keeps holds after the second trimming, which ends within the limit. -/
theorem trimBytes_rule {I : Trimming → Prop}
    (hpage : ∀ t, search storage path (isAfter t.lastCiCreationTimeToDelete) 4 ≠ [] → I t →
      I (ContentInstances.trimPage maxByteSize
        (search storage path (isAfter t.lastCiCreationTimeToDelete) 4) t))
    (h : I t) (ht : trimBytes storage path maxByteSize fuel t = some t') :
    I t' ∧ t'.currentByteSize ≤ maxByteSize := by
  induction fuel generalizing t with
  | zero =>
    unfold ContentInstances.trimBytes at ht
    split at ht
    · next hle =>
      cases ht
      exact ⟨h, hle⟩
    · cases ht
  | succ fuel ih =>
    unfold ContentInstances.trimBytes at ht
    split at ht
    · next hle =>
      cases ht
      exact ⟨h, hle⟩
    · dsimp only at ht
      split at ht
      · cases ht
      · next hne => exact ih (hpage t hne h) ht

theorem AllStored.trimBytes (h : AllStored storage path t)
    (ht : trimBytes storage path maxByteSize fuel t = some t') : AllStored storage path t' :=
  (trimBytes_rule (fun _ _ h => h.trimPage fun _ hc => (mem_search hc).1) h ht).1

theorem trim_stored {c : Container} (h : t.deleted = []) (ht : trim storage path c t = some t') :
    AllStored storage path t' := by
  have hfirst : AllStored storage path t := by
    intro name hname
    rw [h] at hname
    cases hname
  unfold trim at ht
  dsimp only at ht
  split at ht
  · exact hfirst.trimNb.trimBytes ht
  · cases ht
    exact hfirst.trimNb

theorem foldl_toLong_sub {α : Type*} (f : α → ℤ) (found : List α) (x : ℤ) :
    found.foldl (fun size a => toLong (size - f a)) (toLong x) =
      toLong (x - (found.map f).sum) := by
  induction found generalizing x with
  | nil => rw [foldl_nil, map_nil, sum_nil, sub_zero]
  | cons a found ih =>
    rw [foldl_cons, toLong_toLong_sub, ih, map_cons, sum_cons, Int.sub_sub]

theorem foldl_toLong_add {α : Type*} (f : α → ℤ) (found : List α) (x : ℤ) :
    found.foldl (fun size a => toLong (size + f a)) (toLong x) =
      toLong (x + (found.map f).sum) := by
  induction found generalizing x with
  | nil => rw [foldl_nil, map_nil, sum_nil, add_zero]
  | cons a found ih =>
    rw [foldl_cons, toLong_toLong_add, ih, map_cons, sum_cons, Int.add_assoc]

/-- **The first trimming**, when the cast of the number of instances to delete does not overflow. -/
theorem trimNb_trims (size : ℤ) (hpos : 0 ≤ nb) (hlt : nb < 2 ^ 63)
    (hcast : 0 < maxNumberOfInstances → nb - maxNumberOfInstances < 2 ^ 31)
    (hle : 0 < maxNumberOfInstances → nb - maxNumberOfInstances ≤ nbInstances storage path) :
    Trims storage path nb size maxNumberOfInstances
      (trimNb storage path maxNumberOfInstances
        { currentNbOfInstances := toLong nb, currentByteSize := toLong size }) := by
  unfold trimNb
  dsimp only
  rw [toLong_of_lt hpos hlt]
  split
  · next h =>
    rw [toInt_of_lt (by omega) (hcast h.1)]
    have hlength := length_search storage path (by omega) (hle h.1)
    have hfound : ∀ c ∈ search storage path (fun _ => true) (nb - maxNumberOfInstances),
        storage.lookup (childPath path c.1) = some (.contentInstance c.2) :=
      fun c hc => (mem_search hc).1
    constructor
    case nb_eq =>
      dsimp only
      rw [nil_append, length_map, hlength, Int.sub_sub_self,
        toLong_of_lt (by omega) (by omega)]
    case size_eq =>
      rw [foldl_toLong_sub fun c : String × ContentInstance => c.2.contentSize, nil_append,
        sizeOf, weights_search hfound]
    case nb_le =>
      intro _
      rw [nil_append, length_map, hlength]
      omega
  · next h =>
    refine ⟨?_, ?_, fun hmax => ?_⟩
    · exact (toLong_of_lt (by simpa using hpos) (by simpa using hlt)).symm.trans (by simp)
    · simp [sizeOf]
    · omega

theorem Trims.trimPage (h : Trims storage path nb size maxNumberOfInstances t)
    (hpage : ∀ c ∈ page, storage.lookup (childPath path c.1) = some (.contentInstance c.2)) :
    Trims storage path nb size maxNumberOfInstances (trimPage maxByteSize page t) := by
  induction page generalizing t with
  | nil => exact h
  | cons c page ih =>
    obtain ⟨name, ci⟩ := c
    obtain ⟨hfirst, hrest⟩ := forall_mem_cons.mp hpage
    have hone : Trims storage path nb size maxNumberOfInstances
        { t with
          currentByteSize := toLong (t.currentByteSize - ci.contentSize)
          currentNbOfInstances := toLong (t.currentNbOfInstances - 1)
          deleted := t.deleted ++ [name] } := by
      constructor
      case nb_eq =>
        dsimp only
        rw [h.nb_eq, toLong_toLong_sub, length_append, length_singleton]
        push_cast
        rw [Int.sub_sub]
      case size_eq =>
        dsimp only
        rw [h.size_eq, toLong_toLong_sub, sizeOf_append, sizeOf_singleton hfirst, Int.sub_sub]
      case nb_le =>
        intro hmax
        have := h.nb_le hmax
        dsimp only
        rw [length_append]
        push_cast
        omega
    unfold ContentInstances.trimPage
    dsimp only
    split
    · exact ⟨hone.nb_eq, hone.size_eq, hone.nb_le⟩
    · exact ih hone hrest

/-- **The second trimming**, when it ends. -/
theorem Trims.trimBytes (h : Trims storage path nb size maxNumberOfInstances t)
    (ht : trimBytes storage path maxByteSize fuel t = some t') :
    Trims storage path nb size maxNumberOfInstances t' ∧ t'.currentByteSize ≤ maxByteSize :=
  trimBytes_rule (fun _ _ h => h.trimPage fun _ hc => (mem_search hc).1) h ht

theorem trimPage_last (maxByteSize : ℤ) (t : Trimming) (h : page ≠ []) :
    ∃ c ∈ page, (ContentInstances.trimPage maxByteSize page t).lastCiCreationTimeToDelete =
      some c.2.creationTime := by
  induction page generalizing t with
  | nil => exact absurd rfl h
  | cons c page ih =>
    unfold ContentInstances.trimPage
    dsimp only
    split
    · exact ⟨c, mem_cons_self, rfl⟩
    · next hmore =>
      obtain ⟨d, hd, heq⟩ := ih _ fun hnil => hmore (.inl hnil)
      exact ⟨d, mem_cons_of_mem _ hd, heq⟩

/-- The instances that the next page can find. -/
def remaining (storage : Storage) (path : Path) (t : Trimming) : List (String × ContentInstance) :=
  (childInstances storage path).filter fun c => isAfter t.lastCiCreationTimeToDelete c.2

theorem remaining_trimPage_lt (maxByteSize : ℤ) (t : Trimming)
    (h : search storage path (isAfter t.lastCiCreationTimeToDelete) 4 ≠ []) :
    (remaining storage path (ContentInstances.trimPage maxByteSize
      (search storage path (isAfter t.lastCiCreationTimeToDelete) 4) t)).length <
        (remaining storage path t).length := by
  obtain ⟨c, hc, hlast⟩ := trimPage_last maxByteSize t h
  obtain ⟨hstored, hafter⟩ := mem_search hc
  have hfilter : remaining storage path (ContentInstances.trimPage maxByteSize
      (search storage path (isAfter t.lastCiCreationTimeToDelete) 4) t) =
        (remaining storage path t).filter fun d => c.2.creationTime < d.2.creationTime := by
    unfold remaining
    rw [hlast, filter_filter]
    refine filter_congr fun d _ => ?_
    unfold isAfter at hafter ⊢
    split at hafter
    · simp
    · next time _ =>
      have hlt := of_decide_eq_true hafter
      rw [Bool.eq_iff_iff, Bool.and_eq_true, decide_eq_true_iff, decide_eq_true_iff]
      omega
  rw [hfilter, length_filter_lt_length_iff_exists]
  refine ⟨c, mem_filter.mpr ⟨mem_childInstances.mpr hstored, hafter⟩, ?_⟩
  simp

/-- **The pages are not more than the instances**: with that much fuel, the second trimming only
fails when it does not end. -/
theorem trimBytes_fuel (h : (remaining storage path t).length < fuel) :
    trimBytes storage path maxByteSize (fuel + 1) t = trimBytes storage path maxByteSize fuel t := by
  induction fuel generalizing t with
  | zero => exact absurd h (Nat.not_lt_zero _)
  | succ fuel ih =>
    rw [ContentInstances.trimBytes, ContentInstances.trimBytes]
    split
    · rfl
    · split
      · rfl
      · next hpage =>
        refine ih ?_
        have := remaining_trimPage_lt maxByteSize t hpage
        omega

/-- The instances to delete are found under the collection, in the two trimmings. -/
theorem trim_trims {c : Container} (hpos : 0 ≤ nb) (hlt : nb < 2 ^ 63)
    (hcast : 0 < c.maxNrOfInstances.getD (-1) → nb - c.maxNrOfInstances.getD (-1) < 2 ^ 31)
    (hle : 0 < c.maxNrOfInstances.getD (-1) →
      nb - c.maxNrOfInstances.getD (-1) ≤ nbInstances storage path)
    (ht : trim storage path c
      { currentNbOfInstances := toLong nb, currentByteSize := toLong size } = some t) :
    Trims storage path nb size (c.maxNrOfInstances.getD (-1)) t ∧
      (0 < c.maxByteSize.getD (-1) → t.currentByteSize ≤ c.maxByteSize.getD (-1)) := by
  have hfirst := trimNb_trims size hpos hlt hcast hle
  unfold trim at ht
  dsimp only at ht
  split at ht
  · obtain ⟨htrims, hsize⟩ := hfirst.trimBytes ht
    exact ⟨htrims, fun _ => hsize⟩
  · next hmax =>
    cases ht
    exact ⟨hfirst, fun h => absurd h hmax⟩

end Trims

end Ong.Scl
