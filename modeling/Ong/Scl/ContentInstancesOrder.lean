import Ong.Scl.ContentInstancesTrim

/-!
# Trimming instances whose names are in the order of their creation times

Searches are by name, and the trimming of a creation follows the creation times of what it finds.
When the names are in the order of the creation times, it deletes the oldest instances, and the time
that it remembers separates them from the others.

## Main results

* `trim_separates`: the two trimmings keep `Separates`
-/

namespace Ong.Scl

open M2M ContentInstances List

/-- The names are in the order of the creation times, and no two creation times are the same. -/
def StrictlyInOrder (instances : List (String × ContentInstance)) : Prop :=
  ∀ c ∈ instances, ∀ d ∈ instances, c.1 < d.1 → c.2.creationTime < d.2.creationTime

instance (instances : List (String × ContentInstance)) : Decidable (StrictlyInOrder instances) :=
  inferInstanceAs (Decidable (∀ _ ∈ _, _))

/-- What is after the time that the trimming remembers is what it does not delete. -/
def Separates (storage : Storage) (path : Path) (t : Trimming) : Prop :=
  ∀ d ∈ childInstances storage path,
    isAfter t.lastCiCreationTimeToDelete d.2 = true ↔ d.1 ∉ t.deleted

section Trim

variable {storage : Storage} {path : Path} {t t' : Trimming}

theorem StrictlyInOrder.mono {instances instances' : List (String × ContentInstance)}
    (h : StrictlyInOrder instances') (hsub : ∀ c ∈ instances, c ∈ instances') :
    StrictlyInOrder instances :=
  fun c hc d hd => h c (hsub c hc) d (hsub d hd)

theorem StrictlyInOrder.le_of_name_le (h : StrictlyInOrder (childInstances storage path))
    {c d : String × ContentInstance} (hc : c ∈ childInstances storage path)
    (hd : d ∈ childInstances storage path) (hle : c.1 ≤ d.1) :
    c.2.creationTime ≤ d.2.creationTime := by
  by_cases hlt : c.1 < d.1
  · exact Int.le_of_lt (h c hc d hd hlt)
  · rw [eq_of_name_eq hc hd (String.le_antisymm hle (String.not_lt.mp hlt))]

theorem separates_nil (storage : Storage) (path : Path) (h : t.deleted = [])
    (hlast : t.lastCiCreationTimeToDelete = none) :
    Separates storage path t := by
  intro d _
  rw [h, hlast]
  exact iff_of_true rfl not_mem_nil

theorem Separates.of_isPrefix (h : Separates storage path t)
    (hinOrder : StrictlyInOrder (childInstances storage path))
    {found : List (String × ContentInstance)} {last : String × ContentInstance}
    (hfound : found <+: sorted storage path (isAfter t.lastCiCreationTimeToDelete))
    (hlast : found.getLast? = some last) (hdeleted : t'.deleted = t.deleted ++ found.map Prod.fst)
    (hlast' : t'.lastCiCreationTimeToDelete = some last.2.creationTime) :
    Separates storage path t' := by
  obtain ⟨rest, hrest⟩ := hfound
  have hsorted := pairwise_sorted storage path (isAfter t.lastCiCreationTimeToDelete)
  rw [← hrest] at hsorted
  obtain ⟨init, hinit⟩ := getLast?_eq_some_iff.mp hlast
  have hfoundMem : ∀ d ∈ found, d ∈ childInstances storage path ∧
      isAfter t.lastCiCreationTimeToDelete d.2 = true := by
    intro d hd
    refine mem_sorted.mp ?_
    rw [← hrest]
    exact mem_append_left _ hd
  have hlastMem : last ∈ found := mem_of_getLast? hlast
  obtain ⟨hlastStored, hlastAfter⟩ := hfoundMem last hlastMem
  intro d hd
  rw [hdeleted, hlast', mem_append, not_or]
  unfold isAfter
  rw [decide_eq_true_iff]
  by_cases hafter : isAfter t.lastCiCreationTimeToDelete d.2 = true
  · have hnotDeleted := (h d hd).mp hafter
    by_cases hmem : d ∈ found
    · have hle : d.1 ≤ last.1 := by
        rw [hinit] at hmem hsorted
        rcases mem_append.mp hmem with hmem | hmem
        · rw [append_assoc, pairwise_append] at hsorted
          exact hsorted.2.2 d hmem last mem_cons_self
        · obtain rfl := mem_singleton.mp hmem
          exact String.le_refl _
      have htime := hinOrder.le_of_name_le hd hlastStored hle
      refine iff_of_false (by omega) fun hno => hno.2 ?_
      exact mem_map_of_mem hmem
    · have hname : d.1 ∉ found.map Prod.fst := by
        intro hname
        obtain ⟨d', hd', heq⟩ := mem_map.mp hname
        rw [eq_of_name_eq hd (hfoundMem d' hd').1 heq.symm] at hmem
        exact hmem hd'
      have hdRest : d ∈ rest := by
        have hdSorted := mem_sorted.mpr ⟨hd, hafter⟩
        rw [← hrest] at hdSorted
        exact (mem_append.mp hdSorted).resolve_left hmem
      have hle : last.1 ≤ d.1 := (pairwise_append.mp hsorted).2.2 last hlastMem d hdRest
      have hlt : last.1 < d.1 := by
        refine String.not_le.mp fun hge => hname ?_
        rw [String.le_antisymm hge hle]
        exact mem_map_of_mem hlastMem
      exact iff_of_true (hinOrder last hlastStored d hd hlt) ⟨hnotDeleted, hname⟩
  · have hdeletedBefore : d.1 ∈ t.deleted := by
      by_contra hno
      exact hafter ((h d hd).mpr hno)
    refine iff_of_false (fun hlt => hafter ?_) fun hno => hno.1 hdeletedBefore
    unfold isAfter at hlastAfter ⊢
    split at hlastAfter
    · rfl
    · next time htime =>
      have := of_decide_eq_true hlastAfter
      exact decide_eq_true (by omega)

theorem Separates.trimNb (h : Separates storage path t) (hlast : t.lastCiCreationTimeToDelete = none)
    (hinOrder : StrictlyInOrder (childInstances storage path)) (maxNumberOfInstances : Int) :
    Separates storage path (trimNb storage path maxNumberOfInstances t) := by
  unfold ContentInstances.trimNb
  split
  · have hprefix := search_isPrefix storage path (fun _ => true)
      (toInt (t.currentNbOfInstances - maxNumberOfInstances))
    have hall : isAfter t.lastCiCreationTimeToDelete = fun _ => true := by
      rw [hlast]
      rfl
    generalize search storage path (fun _ => true)
      (toInt (t.currentNbOfInstances - maxNumberOfInstances)) = found at hprefix
    dsimp only
    cases hgetLast : found.getLast? with
    | none =>
      have hnil : found = [] := getLast?_eq_none_iff.mp hgetLast
      subst hnil
      intro d hd
      have hd := h d hd
      rw [hlast] at hd
      rw [map_nil, append_nil]
      exact hd
    | some last =>
      rw [← hall] at hprefix
      exact h.of_isPrefix hinOrder hprefix hgetLast rfl rfl
  · exact h

theorem trimPage_isPrefix (maxByteSize : Int) (t : Trimming) {page : List (String × ContentInstance)}
    (h : page ≠ []) : ∃ found last, found <+: page ∧ found.getLast? = some last ∧
      (trimPage maxByteSize page t).deleted = t.deleted ++ found.map Prod.fst ∧
      (trimPage maxByteSize page t).lastCiCreationTimeToDelete = some last.2.creationTime := by
  induction page generalizing t with
  | nil => exact absurd rfl h
  | cons c page ih =>
    unfold ContentInstances.trimPage
    dsimp only
    split
    · exact ⟨[c], c, ⟨page, rfl⟩, rfl, rfl, rfl⟩
    · next hmore =>
      obtain ⟨found, last, hprefix, hgetLast, hdeleted, hlast⟩ := ih _ fun hnil => hmore (.inl hnil)
      refine ⟨c :: found, last, cons_prefix_cons.mpr ⟨rfl, hprefix⟩, ?_, ?_, hlast⟩
      · rw [getLast?_cons, hgetLast]
        rfl
      · rw [hdeleted, append_assoc]
        rfl

theorem Separates.trimBytes {maxByteSize : Int} {fuel : Nat} (h : Separates storage path t)
    (hinOrder : StrictlyInOrder (childInstances storage path))
    (ht : trimBytes storage path maxByteSize fuel t = some t') : Separates storage path t' := by
  refine (trimBytes_rule (fun t hne h => ?_) h ht).1
  obtain ⟨found, last, hprefix, hgetLast, hdeleted, hlast⟩ := trimPage_isPrefix maxByteSize t hne
  have hprefix := hprefix.trans (search_isPrefix storage path _ 4)
  exact h.of_isPrefix hinOrder hprefix hgetLast hdeleted hlast

/-- **The two trimmings** remember a time that separates what they delete from what they leave. -/
theorem trim_separates {c : Container} (h : t.deleted = [])
    (hlast : t.lastCiCreationTimeToDelete = none)
    (hinOrder : StrictlyInOrder (childInstances storage path))
    (ht : trim storage path c t = some t') : Separates storage path t' := by
  have hfirst := (separates_nil storage path h hlast).trimNb hlast hinOrder
    (c.maxNrOfInstances.getD (-1))
  unfold trim at ht
  dsimp only at ht
  split at ht
  · exact hfirst.trimBytes hinOrder ht
  · cases ht
    exact hfirst

end Trim

end Ong.Scl
