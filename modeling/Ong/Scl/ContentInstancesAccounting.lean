import Ong.Lib.Run
import Ong.Scl.ContentInstancesTrim

/-!
# The number and the size of the content instances

A transaction that commits changes the number and the size of the collection as much as the stored
instances, except that a reload takes the size of the collection where it means that of an expired
instance, and that the attributes are `long` values.

## Main results

* `accounted_of_condition`: the attributes are right all along the runs that meet the condition
-/

namespace Ong.Scl

open M2M ContentInstances SclTransaction List AList

/-- The attributes of the collection are the number and the size of the stored instances, within the
limits of the container. -/
structure Accounted (path : Path) (w : World) : Prop where
  attributes : ∃ r, w.storage.lookup path = some (.contentInstances r) ∧
    r.currentNrOfInstances = nbInstances w.storage path ∧
    r.currentByteSize = byteSize w.storage path
  nonneg : 0 ≤ nbInstances w.storage path ∧ 0 ≤ byteSize w.storage path
  limits : ∀ c, w.storage.lookup path.dropLast = some (.container c) →
    (∀ maxNumberOfInstances ∈ c.maxNrOfInstances, 0 < maxNumberOfInstances →
      nbInstances w.storage path ≤ maxNumberOfInstances) ∧
    ∀ maxByteSize ∈ c.maxByteSize, 0 < maxByteSize → byteSize w.storage path ≤ maxByteSize

/-- The invariant, on the storage: beside the property, the container of the collection is `c`, the
attributes are values of `long`, and no instance has a negative size. -/
structure AccountInv (path : Path) (c : Container) (storage : Storage) : Prop where
  attributes : ∃ r, storage.lookup path = some (.contentInstances r) ∧
    r.currentNrOfInstances = nbInstances storage path ∧
    r.currentByteSize = byteSize storage path
  container : storage.lookup path.dropLast = some (.container c)
  sizes : ∀ id ci, storage.lookup (childPath path id) = some (.contentInstance ci) →
    0 ≤ ci.contentSize
  bounds : nbInstances storage path < 2 ^ 63 ∧ byteSize storage path < 2 ^ 63
  nb_le : 0 < c.maxNrOfInstances.getD (-1) →
    nbInstances storage path ≤ c.maxNrOfInstances.getD (-1)
  size_le : 0 < c.maxByteSize.getD (-1) → byteSize storage path ≤ c.maxByteSize.getD (-1)

section Invariant

variable {config : SclConfig} {it : IterationOrder} {path : Path} {c : Container}
  {storage storage' : Storage} {w : World}

theorem nbInstances_nonneg (storage : Storage) (path : Path) : 0 ≤ nbInstances storage path := by
  rw [← length_childInstances]
  exact Int.natCast_nonneg _

theorem AccountInv.byteSize_nonneg (h : AccountInv path c storage) : 0 ≤ byteSize storage path := by
  rw [byteSize, instanceTotal_eq_sum]
  refine sum_nonneg fun x hx => ?_
  obtain ⟨⟨name, ci⟩, hmem, rfl⟩ := mem_map.mp hx
  exact h.sizes name ci (mem_childInstances.mp hmem)

theorem AccountInv.accounted (h : AccountInv path c w.storage) : Accounted path w := by
  refine ⟨h.attributes, ⟨nbInstances_nonneg _ _, h.byteSize_nonneg⟩, fun c' hc' => ?_⟩
  rw [h.container] at hc'
  cases hc'
  refine ⟨fun max hmax hpos => ?_, fun max hmax hpos => ?_⟩
  · have := h.nb_le
    rw [Option.mem_def.mp hmax] at this
    exact this hpos
  · have := h.size_le
    rw [Option.mem_def.mp hmax] at this
    exact this hpos

theorem AccountInv.path_ne (h : AccountInv path c storage) : path.dropLast ≠ path := by
  intro heq
  obtain ⟨r, hr, -⟩ := h.attributes
  have := h.container
  rw [heq, hr] at this
  cases this

theorem AccountInv.of_totals (h : AccountInv path c storage) {r : ContentInstances}
    (hr : storage'.lookup path = some (.contentInstances r))
    (hcontainer : storage'.lookup path.dropLast = storage.lookup path.dropLast)
    (hsizes : ∀ id ci, storage'.lookup (childPath path id) = some (.contentInstance ci) →
      0 ≤ ci.contentSize)
    {nb size : ℤ} (hnb : nbInstances storage' path = nb) (hsize : byteSize storage' path = size)
    (hnbLong : r.currentNrOfInstances = toLong nb) (hsizeLong : r.currentByteSize = toLong size)
    (hbounds : nb < 2 ^ 63 ∧ size < 2 ^ 63)
    (hnb_le : 0 < c.maxNrOfInstances.getD (-1) → nb ≤ c.maxNrOfInstances.getD (-1))
    (hsize_le : 0 < c.maxByteSize.getD (-1) → size ≤ c.maxByteSize.getD (-1)) :
    AccountInv path c storage' := by
  have hsizePos : 0 ≤ byteSize storage' path := by
    rw [byteSize, instanceTotal_eq_sum]
    refine sum_nonneg fun x hx => ?_
    obtain ⟨⟨name, ci⟩, hmem, rfl⟩ := mem_map.mp hx
    exact hsizes name ci (mem_childInstances.mp hmem)
  have hnbPos := nbInstances_nonneg storage' path
  subst hnb hsize
  refine ⟨⟨r, hr, ?_, ?_⟩, hcontainer.trans h.container, hsizes, hbounds, hnb_le, hsize_le⟩
  · rw [hnbLong, toLong_of_lt hnbPos hbounds.1]
  · rw [hsizeLong, toLong_of_lt hsizePos hbounds.2]

/-! ## The storage after a transaction on the ages -/

/-- The transient operations on the age of the instances. -/
def AgeOps (ops : List TransientOp) : Prop := ∀ op ∈ ops, op.part = .timers

theorem ageOps_cisChildDelete {op : CisChildDeleteOp} : AgeOps [.cisChildDelete op] := by
  intro _ hop
  rw [mem_singleton.mp hop]
  rfl

section

variable (config : SclConfig) (it : IterationOrder)

theorem TransientOp.prepare_modifications_of_timers (storage : Storage) {op : TransientOp}
    (h : op.part = .timers) (s : Preparation) :
    (op.prepare config it storage s).2.2.modifications = s.modifications := by
  cases op with
  | cisChildCreate op | cisChildDelete op => rfl
  | subCreate op | subDelete op | subsDelete op | m2mPoc op => cases h

theorem AgeOps.prepareAll_modifications (storage : Storage) {ops : List TransientOp}
    (h : AgeOps ops) (s : Preparation) :
    (Undo.prepareAll (TransientOp.prepare config it storage) {} ops s).2.2.modifications =
      s.modifications := by
  induction ops generalizing s with
  | nil => rfl
  | cons op ops ih =>
    obtain ⟨hop, hops⟩ := forall_mem_cons.mp h
    have hone := TransientOp.prepare_modifications_of_timers config it storage hop s
    by_cases hok : (op.prepare config it storage s).1 = true
    · rw [Undo.prepareAll_cons_of_succeeds hok]
      exact (ih hops _).trans hone
    · rw [Undo.prepareAll_cons_of_fails (Bool.eq_false_iff.mpr hok)]
      exact hone

/-- **The storage after a transaction** that only queues modifications and operations on ages. -/
theorem run_storage {t : SclTransaction} (h : AgeOps t.transientOps) (faults : Faults) (w : World) :
    (run config it faults t w).storage = w.storage ∨
      batchModify w.storage t.modifications =
        some (run config it faults t w).storage := by
  have hmodifications := h.prepareAll_modifications config it w.storage
    ⟨faults.prepare, t.modifications, w.volatile⟩
  unfold run execute
  dsimp only
  split
  · next storage' hcommit =>
    unfold commit prepareAll at hcommit
    rw [Option.ite_none_right_eq_some, hmodifications] at hcommit
    exact .inr hcommit.2
  · exact .inl rfl

end

/-! ## Creations -/

theorem byteSize_nonneg_of_sizes
    (h : ∀ id ci, storage.lookup (childPath path id) = some (.contentInstance ci) →
      0 ≤ ci.contentSize) : 0 ≤ byteSize storage path := by
  rw [byteSize, instanceTotal_eq_sum]
  refine sum_nonneg fun x hx => ?_
  obtain ⟨⟨name, ci⟩, hmem, rfl⟩ := mem_map.mp hx
  exact h name ci (mem_childInstances.mp hmem)

theorem AccountInv.sizeOf_nonneg (h : AccountInv path c storage) (names : List String) :
    0 ≤ sizeOf storage path names := by
  refine sum_nonneg fun x hx => ?_
  obtain ⟨name, -, rfl⟩ := mem_map.mp hx
  unfold FiniteMap.weight
  cases hlookup : storage.lookup (childPath path name) with
  | none => exact le_rfl
  | some resource =>
    rw [Option.elim_some]
    by_cases hinstance : ∃ ci, resource = .contentInstance ci
    · obtain ⟨ci, rfl⟩ := hinstance
      rw [instanceWeight, childInstance_eq_some.mpr ⟨rfl, rfl⟩]
      exact h.sizes name ci hlookup
    · rw [instanceWeight_of_ne fun ci heq => hinstance ⟨ci, heq⟩]

section

variable {last : Option (Int × String)} {now : Int}

theorem refusal_eq_none {nb size : Int} (h : refusal c last nb size now = none) :
    (0 < c.maxNrOfInstances.getD (-1) → nb ≤ c.maxNrOfInstances.getD (-1)) ∧
      (0 < c.maxByteSize.getD (-1) → size ≤ c.maxByteSize.getD (-1)) := by
  unfold refusal at h
  dsimp only at h
  split at h
  · cases h
  next hnb =>
  split at h
  · cases h
  next hsize => exact ⟨fun hpos => by omega, fun hpos => by omega⟩

theorem createTransaction_eq_ok {instances : List ContentInstance} {nb size : Int}
    {t : SclTransaction} {r : ContentInstances}
    (hc : storage.lookup path.dropLast = some (.container c))
    (hr : storage.lookup path = some (.contentInstances r))
    (h : createTransaction storage path instances last nb size now = .ok t) :
    refusal c last nb size now = none ∧ ∃ trimming r',
      trim storage path c
        { currentNbOfInstances := toLong (r.currentNrOfInstances + nb)
          currentByteSize := toLong (r.currentByteSize + size) } = some trimming ∧
      r'.currentNrOfInstances = trimming.currentNbOfInstances ∧
      r'.currentByteSize = trimming.currentByteSize ∧
      r'.latest = instances.getLast?.map (fun ci => childPath path ci.id) ∧
      t.modifications =
        instances.map (fun ci => .create (childPath path ci.id) (.contentInstance ci)) ++
          trimming.deleted.map (fun name => .delete (childPath path name)) ++
            [.update path (.contentInstances r')] ∧
      t.transientOps = ageOps storage path c last now trimming := by
  unfold createTransaction at h
  rw [hc, hr] at h
  dsimp only at h
  unfold checkConditions at h
  cases hrefusal : refusal c last nb size now with
  | some failure =>
    rw [hrefusal] at h
    cases h
  | none =>
    rw [hrefusal] at h
    dsimp only at h
    refine ⟨rfl, ?_⟩
    split at h
    · cases h
    · next trimming htrim =>
      cases h
      exact ⟨trimming, _, htrim, rfl, rfl, rfl, rfl, rfl⟩

theorem ageOps_ageOps {t : Trimming} : AgeOps (ageOps storage path c last now t) := by
  intro op hop
  unfold ageOps at hop
  dsimp only at hop
  split at hop
  · split at hop
    · split at hop
      · split at hop
        all_goals
          rw [mem_singleton.mp hop]
          rfl
      · rw [mem_singleton.mp hop]
        rfl
    · cases hop
  · cases hop

end

/-- The collection can take `nb` more instances, of size `size`, without an overflow. -/
def Fits (path : Path) (storage : Storage) (nb size : ℤ) : Prop :=
  nbInstances storage path + nb < 2 ^ 63 ∧ byteSize storage path + size < 2 ^ 63 ∧
    ∀ c, storage.lookup path.dropLast = some (.container c) →
      0 < c.maxNrOfInstances.getD (-1) →
      nbInstances storage path + nb - c.maxNrOfInstances.getD (-1) < 2 ^ 31

theorem sum_const {α : Type*} (l : List α) (x : ℤ) : (l.map fun _ => x).sum = l.length * x := by
  induction l with
  | nil => simp
  | cons a l ih =>
    rw [map_cons, sum_cons, ih, length_cons]
    push_cast
    rw [Int.add_mul, Int.one_mul, Int.add_comm]

/-- **A creation** that commits. -/
theorem AccountInv.created (h : AccountInv path c w.storage) {instances : List ContentInstance}
    (hsizes : ∀ ci ∈ instances, 0 ≤ ci.contentSize)
    (hfits : Fits path w.storage instances.length (instances.map fun ci => ci.contentSize).sum)
    {last : Option (Int × String)} {size now : Int}
    (hsize : ∀ x, toLong (x + size) =
      toLong (x + (instances.map fun ci => ci.contentSize).sum))
    {t : SclTransaction}
    (ht : createTransaction w.storage path instances last instances.length size now = .ok t)
    (faults : Faults) :
    AccountInv path c (run config it faults t w).storage := by
  obtain ⟨r, hr, hnbEq, hsizeEq⟩ := h.attributes
  obtain ⟨hrefusal, trimming, r', htrim, hnb', hsize', -, hmodifications, hops⟩ :=
    createTransaction_eq_ok h.container hr ht
  rw [hnbEq, hsizeEq, hsize] at htrim
  obtain ⟨hnbFits, hsizeFits, hcast⟩ := hfits
  have hnbPos := nbInstances_nonneg w.storage path
  obtain ⟨htrims, hsizeLe⟩ := trim_trims (by omega) hnbFits (hcast c h.container)
    (fun hpos => by
      have := (refusal_eq_none hrefusal).1 hpos
      omega) htrim
  rcases run_storage config it (t := t) (hops ▸ ageOps_ageOps) faults w with hsame | hbatch
  · rw [hsame]
    exact h
  rw [hmodifications] at hbatch
  have hstored := trim_stored rfl htrim
  have hbatch := batch_of_batchModify hr hstored hbatch
  have hsizes' : ∀ id ci, (run config it faults t w).storage.lookup
      (childPath path id) = some (.contentInstance ci) → 0 ≤ ci.contentSize := by
    intro id ci hci
    rcases hbatch.instances id ci hci with hmem | hold
    · exact hsizes ci hmem
    · exact h.sizes id ci hold
  have hnbTotal := hbatch.total fun _ => 1
  have hsizeTotal := hbatch.total fun ci => ci.contentSize
  rw [sum_const, mul_one, sum_weights_one hstored] at hnbTotal
  have hsizePos : 0 ≤ byteSize (run config it faults t w).storage path :=
    byteSize_nonneg_of_sizes hsizes'
  have hsizeOf := h.sizeOf_nonneg trimming.deleted
  have hsizeResult : byteSize (run config it faults t w).storage path =
      byteSize w.storage path + (instances.map fun ci => ci.contentSize).sum -
        sizeOf w.storage path trimming.deleted := hsizeTotal
  refine h.of_totals hbatch.collection (hbatch.other _ h.path_ne fun name => ?_) hsizes' hnbTotal
    hsizeResult (hnb'.trans htrims.nb_eq) (hsize'.trans htrims.size_eq) ⟨?_, ?_⟩ htrims.nb_le
    fun hpos => ?_
  · exact (childPath_ne path name).2.symm
  · change nbInstances w.storage path + _ - _ < 2 ^ 63
    omega
  · omega
  · have := hsizeLe hpos
    rw [htrims.size_eq, toLong_of_lt (by omega) (by omega)] at this
    exact this

/-! ## Deletions -/

theorem AccountInv.removed (h : AccountInv path c storage) {r : ContentInstances}
    (hr : storage.lookup path = some (.contentInstances r)) {id : String} {ci : ContentInstance}
    (hci : storage.lookup (childPath path id) = some (.contentInstance ci))
    (hbatch : Batch [] [id] (removeInstance r ci) path storage storage') :
    AccountInv path c storage' := by
  obtain ⟨r', hr', hnbEq, hsizeEq⟩ := h.attributes
  rw [hr] at hr'
  cases hr'
  have htotal : ∀ g, instanceTotal g storage' path = instanceTotal g storage path - g ci := by
    intro g
    rw [hbatch.total g, map_nil, sum_nil, add_zero, map_singleton,
      sum_singleton, weight_childPath hci]
  have hnb : nbInstances storage' path = nbInstances storage path - 1 := htotal fun _ => 1
  have hsize : byteSize storage' path = byteSize storage path - ci.contentSize :=
    htotal fun ci => ci.contentSize
  have hpos := h.sizes id ci hci
  obtain ⟨hnbBound, hsizeBound⟩ := h.bounds
  refine h.of_totals hbatch.collection (hbatch.other _ h.path_ne fun name => ?_)
    (fun id' ci' hci' => ?_) hnb hsize ?_ ?_ ⟨by omega, by omega⟩ (fun hmax => ?_) fun hmax => ?_
  · exact (childPath_ne path name).2.symm
  · rcases hbatch.instances id' ci' hci' with hmem | hold
    · cases hmem
    · exact h.sizes id' ci' hold
  · rw [← hnbEq]
    rfl
  · rw [← hsizeEq]
    rfl
  · have := h.nb_le hmax
    omega
  · have := h.size_le hmax
    omega

theorem batch_delete {r r' : ContentInstances}
    (hr : storage.lookup path = some (.contentInstances r)) {id : String} {ci : ContentInstance}
    (hci : storage.lookup (childPath path id) = some (.contentInstance ci))
    (h : batchModify storage [.update path (.contentInstances r'), .delete (childPath path id)] =
      some storage') : Batch [] [id] r' path storage storage' := by
  have hne := (childPath_ne path id).1
  obtain ⟨_, hupdate, h⟩ := Option.bind_eq_some_iff.mp h
  obtain ⟨_, hdelete, hnil⟩ := Option.bind_eq_some_iff.mp h
  cases hnil
  have herase := (apply_delete_eq_some.mp hdelete).2
  rw [← (apply_update_eq_some.mp hupdate).2] at herase
  rw [← herase]
  constructor
  case collection => rw [lookup_erase_ne hne.symm, lookup_insert]
  case other =>
    intro p hp hname
    rw [lookup_erase_ne (hname id), lookup_insert_ne hp]
  case total =>
    intro g
    have hweight : FiniteMap.weight (instanceWeight g path)
        (storage.insert path (.contentInstances r')) (childPath path id) = g ci :=
      weight_childPath ((lookup_insert_ne hne).trans hci)
    have hself : instanceTotal g (storage.insert path (.contentInstances r')) path =
        instanceTotal g storage path := instanceTotal_insert_self hr
    unfold instanceTotal at hself ⊢
    rw [FiniteMap.total_erase, hweight, hself, map_nil, sum_nil, map_singleton,
      sum_singleton, weight_childPath hci, add_zero]
  case instances =>
    intro id' ci' hci'
    right
    by_cases heq : childPath path id' = childPath path id
    · rw [heq, lookup_erase] at hci'
      cases hci'
    · rwa [lookup_erase_ne heq, lookup_insert_ne (childPath_ne path id').1] at hci'
  case created | free => nofun
  case deleted =>
    intro name hname
    rw [mem_singleton.mp hname, lookup_erase]
  case kept =>
    intro name hname _
    have hother : childPath path name ≠ childPath path id :=
      fun heq => hname (mem_singleton.mpr (childPath_inj heq))
    rw [lookup_erase_ne hother, lookup_insert_ne (childPath_ne path name).1]

end Invariant

section Events

variable {config : SclConfig} {it : IterationOrder} {path : Path} {c : Container} {w w' : World}
  {ci : ContentInstance} {e : External} {es : List External} {fault : Bool}

/-- What the size of the collection loses at a start is the size of the instances that expired:
there are none, or the size that is taken for each of them makes the right sum. -/
def ReloadFits (path : Path) (storage : Storage) (now : Int) : Prop :=
  ∀ c r, storage.lookup path.dropLast = some (.container c) →
    storage.lookup path = some (.contentInstances r) → 0 < c.maxInstanceAge.getD (-1) →
      let limitDate := toLong (now - c.maxInstanceAge.getD (-1) * 1000)
      let expired := search storage path (fun ci => ci.creationTime < limitDate) 4
      expired.length * r.currentByteSize = (expired.map fun c => c.2.contentSize).sum

/-- **The condition** on an event: what is created fits in the collection, a representation gives no
negative size, and a start finds no instance that expired but one whose size is right. -/
def AccountingCondition (path : Path) (w : World) : ContentInstancesEvent → Prop
  | .createFromContentInstance _ _ contentSize _ _ => Fits path w.storage 1 contentSize
  | .createFromBytes _ contentSize _ _ => Fits path w.storage 1 contentSize
  | .createFromExternal e _ _ => 0 ≤ e.contentSize ∧ Fits path w.storage 1 e.contentSize
  | .createFromExternals es _ _ =>
    (∀ e ∈ es, 0 ≤ e.contentSize) ∧
      Fits path w.storage es.length (es.map fun e => e.contentSize).sum
  | .delete _ _ _ => True
  | .timeout _ _ _ => True
  | .start now _ _ => ReloadFits path w.storage now

theorem newInstance_eq_ok {storage : Storage} {length : Int} {ci' : ContentInstance}
    (h : newInstance storage path length ci = .ok ci') : 0 < length ∧ ci' = ci := by
  unfold newInstance at h
  split at h
  · cases h
  · split at h
    · cases h
    · next hlength =>
      cases h
      exact ⟨by omega, rfl⟩

theorem contentInstance_eq_ok {storage : Storage} (h : e.contentInstance storage path = .ok ci) :
    ci.contentSize = e.contentSize := by
  unfold External.contentInstance at h
  split at h
  · cases h
  · split at h
    · rw [(newInstance_eq_ok h).2]
    · cases h

theorem mapM_contentInstance_eq_ok {storage : Storage} {instances : List ContentInstance}
    (h : (es.mapM fun e : External => e.contentInstance storage path) = .ok instances) :
    instances.map (fun ci => ci.contentSize) = es.map fun e => e.contentSize := by
  induction es generalizing instances with
  | nil =>
    cases h
    rfl
  | cons e es ih =>
    rw [mapM_cons] at h
    cases hci : e.contentInstance storage path with
    | error failure =>
      rw [hci] at h
      cases h
    | ok ci =>
      cases hes : es.mapM fun e : External => e.contentInstance storage path with
      | error failure =>
        rw [hci, hes] at h
        cases h
      | ok cis =>
        rw [hci, hes] at h
        cases h
        rw [map_cons, map_cons, ih hes, contentInstance_eq_ok hci]

/-- A transaction that creates instances that fit. -/
def Creates (path : Path) (storage : Storage) (t : SclTransaction) : Prop :=
  ∃ (instances : List ContentInstance) (last : Option (Int × String)) (size now : Int),
    (∀ ci ∈ instances, 0 ≤ ci.contentSize) ∧
    Fits path storage instances.length (instances.map fun ci => ci.contentSize).sum ∧
    (∀ x, toLong (x + size) = toLong (x + (instances.map fun ci => ci.contentSize).sum)) ∧
    createTransaction storage path instances last instances.length size now = .ok t

section

variable {storage : Storage} {now : Int} {t : SclTransaction} {date : String} {contentSize : Int}

theorem creates_one (hpos : 0 ≤ ci.contentSize) (hfits : Fits path storage 1 ci.contentSize)
    {last : Option (Int × String)}
    (ht : createTransaction storage path [ci] last 1 ci.contentSize now = .ok t) :
    Creates path storage t := by
  have hsum : ([ci].map fun ci => ci.contentSize).sum = ci.contentSize := by
    rw [map_singleton, sum_singleton]
  refine ⟨[ci], last, ci.contentSize, now, ?_, ?_, ?_, ht⟩
  · intro ci' hci'
    rw [mem_singleton.mp hci']
    exact hpos
  · rw [hsum]
    exact hfits
  · intro x
    rw [hsum]

theorem creates_contentInstance {id : Option String} (hfits : Fits path storage 1 contentSize)
    (ht : doCreateIndicationFromContentInstance storage path id date contentSize now = .ok t) :
    Creates path storage t := by
  unfold doCreateIndicationFromContentInstance at ht
  dsimp only at ht
  split at ht
  · obtain ⟨ci, hci, ht⟩ := bind_eq_ok ht
    obtain ⟨hpos, rfl⟩ := newInstance_eq_ok hci
    exact creates_one (by dsimp only; omega) hfits ht
  · cases ht

theorem creates_bytes (hfits : Fits path storage 1 contentSize)
    (ht : doCreateIndicationFromBytes storage path date contentSize now = .ok t) :
    Creates path storage t := by
  obtain ⟨ci, hci, ht⟩ := bind_eq_ok ht
  obtain ⟨hpos, rfl⟩ := newInstance_eq_ok hci
  exact creates_one (by dsimp only; omega) hfits ht

theorem creates_external (hpos : 0 ≤ e.contentSize) (hfits : Fits path storage 1 e.contentSize)
    (ht : doCreateIndicationFromExternalContentInstance storage path e now = .ok t) :
    Creates path storage t := by
  obtain ⟨ci, hci, ht⟩ := bind_eq_ok ht
  have hsize := contentInstance_eq_ok hci
  rw [← hsize] at hpos hfits
  exact creates_one hpos hfits ht

theorem creates_externals (hpos : ∀ e ∈ es, 0 ≤ e.contentSize)
    (hfits : Fits path storage es.length (es.map fun e => e.contentSize).sum)
    (ht : doCreateIndicationFromExternalContentInstances storage path es now = .ok t) :
    Creates path storage t := by
  obtain ⟨instances, hinstances, ht⟩ := bind_eq_ok ht
  have hsizes := mapM_contentInstance_eq_ok hinstances
  have hlength : instances.length = es.length := by
    rw [← length_map (fun ci : ContentInstance => ci.contentSize), hsizes, length_map]
  rw [← hsizes, ← hlength] at hfits
  refine ⟨instances, oldest instances, _, now, fun ci hci => ?_, hfits, fun x => ?_, ht⟩
  · have hmem : ci.contentSize ∈ es.map fun e => e.contentSize := by
      rw [← hsizes]
      exact mem_map_of_mem hci
    obtain ⟨e, he, heq⟩ := mem_map.mp hmem
    rw [← heq]
    exact hpos e he
  · have hzero : toLong 0 = 0 := rfl
    rw [← hzero, foldl_toLong_add fun ci : ContentInstance => ci.contentSize, zero_add, add_comm,
      toLong_toLong_add, add_comm]

end

section

variable (h : AccountInv path c w.storage) {faults : Faults}

include h

theorem AccountInv.createContentInstances {result : Except Failure SclTransaction}
    (hcreates : ∀ t, result = .ok t → Creates path w.storage t)
    (hw' : createContentInstances config it result faults w = some w') :
    AccountInv path c w'.storage := by
  unfold Scl.createContentInstances at hw'
  split at hw'
  · next t =>
    obtain ⟨instances, last, size, now, hsizes, hfits, hsize, ht⟩ := hcreates t rfl
    cases hw'
    exact h.created hsizes hfits hsize ht faults
  · cases hw'
  · cases hw'
    exact h

theorem AccountInv.deleteContentInstance {id : String} {now : Int} :
    AccountInv path c (deleteContentInstance config it path id now faults w).storage := by
  unfold Scl.deleteContentInstance
  split
  · next ci r hci hr =>
    rcases run_storage config it (t := deleteTransaction path r id ci now) ageOps_cisChildDelete
      faults w with hsame | hbatch
    · rw [hsame]
      exact h
    · exact h.removed hr hci (batch_delete hr hci hbatch)
  · exact h

theorem AccountInv.timeoutContentInstances {timer : Nat} {now : Int}
    (hw' : timeoutContentInstances config it path timer now faults w = some w') :
    AccountInv path c w'.storage := by
  unfold Scl.timeoutContentInstances at hw'
  split at hw'
  · dsimp only at hw'
    generalize (w.volatile.instanceAgeId.lookup path).getD "null" = id at hw'
    split at hw'
    · next ci r hci hr =>
      cases hw'
      rcases run_storage config it (t := timeoutTransaction path r id ci now) ageOps_cisChildDelete
        faults { w with volatile := w.volatile.cancelTimer (some timer) } with hsame | hbatch
      · rw [hsame]
        exact h
      · exact h.removed hr hci (batch_timeout hr hci hbatch)
    · cases hw'
      exact h
  · cases hw'

end

theorem reload_eq_some {storage : Storage} {now : Int} {v v' : Volatile} {t : SclTransaction}
    {r : ContentInstances} (hc : storage.lookup path.dropLast = some (.container c))
    (hr : storage.lookup path = some (.contentInstances r))
    (h : reload storage path now fault v = some (t, v')) :
    t.transientOps = [] ∧
      (t.modifications = [] ∨ 0 < c.maxInstanceAge.getD (-1) ∧
        let limitDate := toLong (now - c.maxInstanceAge.getD (-1) * 1000)
        let expired := search storage path (fun ci => ci.creationTime < limitDate) 4
        t.modifications =
          expired.map (fun c => .delete (childPath path c.1)) ++
            [.update path (.contentInstances
              { r with
                currentNrOfInstances :=
                  expired.foldl (fun nb _ => toLong (nb - 1)) r.currentNrOfInstances
                currentByteSize :=
                  expired.foldl (fun size _ => toLong (size - r.currentByteSize))
                    r.currentByteSize })]) := by
  unfold reload at h
  rw [hc, hr] at h
  dsimp only at h
  split at h
  · next hage =>
    split at h
    · cases h
      exact ⟨rfl, .inr ⟨hage, rfl⟩⟩
    · split at h
      · cases h
        exact ⟨rfl, .inr ⟨hage, rfl⟩⟩
      · cases h
  · cases h
    exact ⟨rfl, .inl rfl⟩

/-- **A start**, when what it subtracts is right. -/
theorem AccountInv.startContentInstances (h : AccountInv path c w.storage) {now : Int}
    {faults : Faults} (hfits : ReloadFits path w.storage now)
    (hw' : startContentInstances config it path now fault faults w = some w') :
    AccountInv path c w'.storage := by
  obtain ⟨r, hr, hnbEq, hsizeEq⟩ := h.attributes
  obtain ⟨⟨t, v⟩, hreload, hrun⟩ := Option.map_eq_some_iff.mp hw'
  obtain ⟨hops, hmodifications⟩ := reload_eq_some h.container hr hreload
  have hage : AgeOps t.transientOps := by
    rw [hops]
    nofun
  dsimp only at hrun
  subst hrun
  rcases run_storage config it hage faults ⟨w.storage, v⟩ with hsame | hbatch
  · rw [hsame]
    exact h
  dsimp only at hbatch
  rcases hmodifications with hnil | ⟨hpos, hmodifications⟩
  · rw [hnil, batchModify_nil] at hbatch
    rw [← Option.some.inj hbatch]
    exact h
  have hloss := hfits c r h.container hr hpos
  dsimp only at hmodifications hloss
  have hfound : ∀ e ∈ search w.storage path (fun ci => ci.creationTime <
      toLong (now - c.maxInstanceAge.getD (-1) * 1000)) 4,
      w.storage.lookup (childPath path e.1) = some (.contentInstance e.2) :=
    fun e he => (mem_search he).1
  generalize search w.storage path (fun ci => ci.creationTime <
    toLong (now - c.maxInstanceAge.getD (-1) * 1000)) 4 = expired at hmodifications hloss hfound
  rw [hmodifications] at hbatch
  have hbatch := batch_found hr (fun e he => mem_childInstances.mpr (hfound e he)) hbatch
  have htotal : ∀ g, instanceTotal g (run config it faults t ⟨w.storage, v⟩).storage
      path = instanceTotal g w.storage path - (expired.map fun e => g e.2).sum := by
    intro g
    rw [hbatch.total g, map_nil, sum_nil, add_zero, weights_search hfound]
  have hones : (expired.map fun _ => (1 : ℤ)).sum = expired.length := by rw [sum_const, mul_one]
  have hnb : nbInstances (run config it faults t ⟨w.storage, v⟩).storage path =
      nbInstances w.storage path - expired.length := by
    rw [← hones]
    exact htotal fun _ => 1
  have hsize := htotal fun ci => ci.contentSize
  have hsizes : ∀ e ∈ expired, 0 ≤ e.2.contentSize := fun e he => h.sizes e.1 e.2 (hfound e he)
  have hlost : 0 ≤ (expired.map fun e => e.2.contentSize).sum := by
    refine sum_nonneg fun x hx => ?_
    obtain ⟨e, he, rfl⟩ := mem_map.mp hx
    exact hsizes e he
  obtain ⟨hnbBound, hsizeBound⟩ := h.bounds
  have hnbPos := nbInstances_nonneg w.storage path
  have hsizePos := h.byteSize_nonneg
  refine h.of_totals hbatch.collection (hbatch.other _ h.path_ne fun name => ?_)
    (fun id ci hci => ?_) hnb hsize ?_ ?_ ⟨by omega, ?_⟩ (fun hmax => ?_) fun hmax => ?_
  · exact (childPath_ne path name).2.symm
  · rcases hbatch.instances id ci hci with hmem | hold
    · cases hmem
    · exact h.sizes id ci hold
  · dsimp only
    rw [hnbEq, ← hones, ← foldl_toLong_sub, toLong_of_lt hnbPos hnbBound]
  · change expired.foldl (fun size _ => toLong (size - r.currentByteSize)) r.currentByteSize =
      toLong (byteSize w.storage path - _)
    rw [← hloss, ← sum_const, ← foldl_toLong_sub, ← hsizeEq, toLong_of_lt (by omega) (by omega)]
  · change byteSize w.storage path - _ < 2 ^ 63
    omega
  · have := h.nb_le hmax
    omega
  · have := h.size_le hmax
    change byteSize w.storage path - _ ≤ _
    omega

/-! ## Runs -/

/-- The storage in which a collection was just created, in a container. -/
structure NewContentInstances (path : Path) (storage : Storage) : Prop where
  collection : storage.lookup path = some (.contentInstances ⟨0, 0, none⟩)
  container : ∃ c, storage.lookup path.dropLast = some (.container c)
  empty : childInstances storage path = []

theorem accountInv_of_new {storage : Storage} (h : NewContentInstances path storage) :
    ∃ c, AccountInv path c storage := by
  obtain ⟨c, hc⟩ := h.container
  have hzero : ∀ g, instanceTotal g storage path = 0 := by
    intro g
    rw [instanceTotal_eq_sum, h.empty]
    rfl
  have hnb : nbInstances storage path = 0 := hzero _
  have hsize : byteSize storage path = 0 := hzero _
  refine ⟨c, ⟨_, h.collection, hnb.symm, hsize.symm⟩, hc, fun id ci hci => ?_, ?_, ?_, ?_⟩
  · have := mem_childInstances.mpr hci
    rw [h.empty] at this
    cases this
  all_goals omega

theorem contentInstancesStep_inv (h : AccountInv path c w.storage) {e : ContentInstancesEvent}
    (hC : AccountingCondition path w e)
    (hw' : contentInstancesStep config it path w e = some w') : AccountInv path c w'.storage := by
  cases e with
  | createFromContentInstance id date contentSize now faults =>
    exact h.createContentInstances (fun t ht => creates_contentInstance hC ht) hw'
  | createFromBytes date contentSize now faults =>
    exact h.createContentInstances (fun t ht => creates_bytes hC ht) hw'
  | createFromExternal e now faults =>
    exact h.createContentInstances (fun t ht => creates_external hC.1 hC.2 ht) hw'
  | createFromExternals es now faults =>
    exact h.createContentInstances (fun t ht => creates_externals hC.1 hC.2 ht) hw'
  | delete id now faults =>
    cases hw'
    exact h.deleteContentInstance
  | timeout timer now faults => exact h.timeoutContentInstances hw'
  | start now fault faults => exact h.startContentInstances hC hw'

/-- **The attributes of the collection** are the number and the size of the stored instances, within
the limits of the container, all along the runs whose events meet the condition. -/
theorem accounted_of_condition (config : SclConfig) (it : IterationOrder) {storage : Storage}
    (hnew : NewContentInstances path storage) (events : List ContentInstancesEvent)
    (hC : Run.Along (contentInstancesStep config it path) (AccountingCondition path)
      ⟨storage, .initial⟩ events) :
    Run.Visits (contentInstancesStep config it path) (Accounted path) ⟨storage, .initial⟩
      events := by
  obtain ⟨c, hinv⟩ := accountInv_of_new hnew
  exact Run.visits_mono (fun _ h => h.accounted)
    (Run.visits_of_along (fun _ _ _ (h : AccountInv path c _) hC hs =>
      contentInstancesStep_inv h hC hs) hinv hC)

/-- An empty collection, in a container of at most three instances, of twenty bytes, for ten
seconds. -/
def newContentInstances : Storage :=
  (AList.singleton ["container"] (.container ⟨some 3, some 20, some 10⟩)).insert
    ["container", "contentInstances"] (.contentInstances ⟨0, 0, none⟩)

theorem newContentInstances_new :
    NewContentInstances ["container", "contentInstances"] newContentInstances :=
  ⟨rfl, ⟨_, rfl⟩, by decide⟩

/-- Two instances, of which one is deleted and the other is too old when the SCL starts. -/
theorem accounted_create_delete_start :
    Run.Visits (contentInstancesStep ⟨1, 1⟩ noOrder ["container", "contentInstances"])
      (Accounted ["container", "contentInstances"]) ⟨newContentInstances, .initial⟩
      [.createFromBytes "a" 5 0 {}, .createFromExternal ⟨some "b", 1000, 7, 7⟩ 2000 {},
        .delete "a" 3000 {}, .start 20000 false {}] := by
  refine accounted_of_condition ⟨1, 1⟩ noOrder newContentInstances_new _ fun w₁ hw₁ => ⟨?_,
    fun w₂ hw₂ => ⟨?_, fun w₃ hw₃ => ⟨trivial, fun w₄ hw₄ => ⟨?_, trivial⟩⟩⟩⟩
  · refine ⟨by decide, by decide, fun c hc _ => ?_⟩
    cases hc
    decide
  · cases hw₁
    refine ⟨by decide, by decide, by decide, fun c hc _ => ?_⟩
    cases hc
    decide
  · cases hw₁
    cases hw₂
    cases hw₃
    intro c r hc hr _
    cases hc
    cases hr
    decide

/-- Of two instances, one is too old when the SCL starts: the size of the collection is then zero,
and not that of the other. -/
theorem accounted_broken :
    ¬ Run.Visits (contentInstancesStep ⟨1, 1⟩ noOrder ["container", "contentInstances"])
      (Accounted ["container", "contentInstances"]) ⟨newContentInstances, .initial⟩
      [.createFromBytes "a" 5 0 {}, .createFromBytes "b" 7 5000 {}, .start 12000 false {}] := by
  intro h
  have hlast := Run.visits_exec h rfl
  obtain ⟨r, hr, -, hsize⟩ := hlast.attributes
  have hzero : r.currentByteSize = 0 := by
    cases hr
    rfl
  rw [hzero] at hsize
  revert hsize
  decide

end Events

end Ong.Scl
