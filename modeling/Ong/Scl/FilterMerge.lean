import Mathlib.Data.Finset.Image
import Ong.Scl.FilterCriteria
import Ong.Scl.FilterMatches

/-!
# The merge of two filters

Two criteria are merged into one that should let pass whatever one of them does.  The criteria are
merged one by one: a lower bound is the smaller of the two, an upper bound should be the larger, the
strings that are asked for are united, those that are excluded are intersected, and a criterion that
is missing on one side is dropped.  The upper bound of the size of the content becomes the smaller
one.

## Main results

* `toSets_merge`: with sorted arrays this is the merge of the criteria with sets
* `merge_upperBound_iff`: the merge is an upper bound exactly when the upper bounds of the size do
  not decide
-/

namespace Ong.Scl.FilterArrays

open BinarySearch List Scl.FilterCriteria

variable {S : Type} [LinearOrder S]

/-! ## The merge -/

/-- The strings of the second array that the first one has. -/
def intersection (result fc : List S) : List S :=
  fc.filter fun s => (binarySearch result s).isSome

/-- The strings of the first array and those of the second that the first one lacks, sorted. -/
def unionSorted (result fc : List S) : List S :=
  (result ++ fc.filter fun s => !(binarySearch result s).isSome).mergeSort fun a b => decide (a ≤ b)

/-- A criterion that one of the two does not set is dropped. -/
def mergeBoth {α : Type} (f : α → α → α) : Option α → Option α → Option α
  | some a, some b => some (f a b)
  | _, _ => none

/-- `SclResource.mergeFilterCriteria`, of two criteria that are not null. -/
def SclResource.merge (result filterCriteria : FilterCriteria S) : FilterCriteria S :=
  { result with
    ifModifiedSince := mergeBoth (fun a b => if a > b then b else a) result.ifModifiedSince
      filterCriteria.ifModifiedSince
    ifUnmodifiedSince := mergeBoth (fun a b => if a < b then b else a) result.ifUnmodifiedSince
      filterCriteria.ifUnmodifiedSince
    ifNoneMatch := mergeBoth intersection result.ifNoneMatch filterCriteria.ifNoneMatch
    searchString := mergeBoth unionSorted result.searchString filterCriteria.searchString
    createdAfter := mergeBoth (fun a b => if a > b then b else a) result.createdAfter
      filterCriteria.createdAfter
    createdBefore := mergeBoth (fun a b => if a < b then b else a) result.createdBefore
      filterCriteria.createdBefore }

/-- `ContentInstances.mergeFilterCriteria`, of two criteria that are not null.  `sizeUntil` is kept
when it is the smaller one, as `sizeFrom` is. -/
def ContentInstances.merge (result filterCriteria : FilterCriteria S) : FilterCriteria S :=
  { SclResource.merge result filterCriteria with
    sizeFrom := mergeBoth (fun a b => if a > b then b else a) result.sizeFrom filterCriteria.sizeFrom
    sizeUntil := mergeBoth (fun a b => if a > b then b else a) result.sizeUntil
      filterCriteria.sizeUntil
    contentType := mergeBoth unionSorted result.contentType filterCriteria.contentType
    metaDataOnly := mergeBoth (fun _ b => b) result.metaDataOnly filterCriteria.metaDataOnly }

/-- `mergeFilterCriteria` of `SclResource`; no criteria absorb the others. -/
def SclResource.mergeFilterCriteria :
    Option (FilterCriteria S) → Option (FilterCriteria S) → Option (FilterCriteria S) :=
  mergeBoth SclResource.merge

/-- `mergeFilterCriteria` of `ContentInstances`. -/
def ContentInstances.mergeFilterCriteria :
    Option (FilterCriteria S) → Option (FilterCriteria S) → Option (FilterCriteria S) :=
  mergeBoth ContentInstances.merge

/-- The criteria of a list of filters, merged into the first one after the other. -/
def mergeAll {α : Type} (merge : Option α → Option α → Option α) : List (Option α) → Option α
  | [] => none
  | f :: fs => fs.foldl merge f

/-! ## Sorted arrays -/

/-- The arrays are sorted. -/
structure SortedArrays (f : FilterCriteria S) : Prop where
  ifNoneMatch : ∀ a ∈ f.ifNoneMatch, a.Pairwise (· ≤ ·)
  searchString : ∀ a ∈ f.searchString, a.Pairwise (· ≤ ·)
  contentType : ∀ a ∈ f.contentType, a.Pairwise (· ≤ ·)

section Arrays

variable {a b : List S} {s : S}

theorem mem_intersection (ha : a.Pairwise (· ≤ ·)) : s ∈ intersection a b ↔ s ∈ a ∧ s ∈ b := by
  rw [intersection, mem_filter, isSome_binarySearch_iff ha, and_comm]

theorem sorted_intersection (hb : b.Pairwise (· ≤ ·)) : (intersection a b).Pairwise (· ≤ ·) :=
  hb.filter _

theorem mem_unionSorted (ha : a.Pairwise (· ≤ ·)) : s ∈ unionSorted a b ↔ s ∈ a ∨ s ∈ b := by
  have hsearch : (!(binarySearch a s).isSome) = true ↔ s ∉ a := by
    rw [Bool.not_eq_true', ← Bool.not_eq_true, isSome_binarySearch_iff ha]
  rw [unionSorted, mem_mergeSort, mem_append, mem_filter, hsearch]
  by_cases hs : s ∈ a <;> simp [hs]

theorem sorted_unionSorted : (unionSorted a b).Pairwise (· ≤ ·) := by
  have htrans : ∀ x y z : S, decide (x ≤ y) = true → decide (y ≤ z) = true →
      decide (x ≤ z) = true := by
    intro x y z hxy hyz
    exact decide_eq_true ((of_decide_eq_true hxy).trans (of_decide_eq_true hyz))
  have htotal : ∀ x y : S, (decide (x ≤ y) || decide (y ≤ x)) = true := by
    intro x y
    rw [Bool.or_eq_true, decide_eq_true_eq, decide_eq_true_eq]
    exact le_total x y
  have h := pairwise_mergeSort htrans htotal
    (a ++ b.filter fun s => !(binarySearch a s).isSome)
  exact h.imp fun hxy => of_decide_eq_true hxy

end Arrays

theorem mergeBoth_eq_some {α : Type} {f : α → α → α} {x y : Option α} {c : α}
    (h : c ∈ mergeBoth f x y) : ∃ a ∈ x, ∃ b ∈ y, c = f a b := by
  rcases x with _ | a <;> rcases y with _ | b
  · cases h
  · cases h
  · cases h
  · exact ⟨a, rfl, b, rfl, (Option.some.inj h).symm⟩

theorem SortedArrays.merge {f g : FilterCriteria S} (hf : SortedArrays f) (hg : SortedArrays g) :
    SortedArrays (SclResource.merge f g) ∧ SortedArrays (ContentInstances.merge f g) := by
  have hnone : ∀ a ∈ (SclResource.merge f g).ifNoneMatch, a.Pairwise (· ≤ ·) := by
    intro a ha
    obtain ⟨x, -, y, hy, rfl⟩ := mergeBoth_eq_some ha
    exact sorted_intersection (hg.ifNoneMatch y hy)
  have hsearch : ∀ a ∈ (SclResource.merge f g).searchString, a.Pairwise (· ≤ ·) := by
    intro a ha
    obtain ⟨x, -, y, -, rfl⟩ := mergeBoth_eq_some ha
    exact sorted_unionSorted
  refine ⟨⟨hnone, hsearch, hf.contentType⟩, ⟨hnone, hsearch, fun a ha => ?_⟩⟩
  obtain ⟨x, -, y, -, rfl⟩ := mergeBoth_eq_some ha
  exact sorted_unionSorted

/-! ## The criteria with sets -/

/-- An array of strings, in whichever order they are compared, as a set. -/
def texts (text : S ↪ String) (a : List S) : Finset String := a.toFinset.map text

/-- The arrays as sets; every date is an object of its own. -/
def toSets (text : S ↪ String) (f : FilterCriteria S) : Scl.FilterCriteria where
  ifModifiedSince := f.ifModifiedSince.map (Date.mk 0)
  ifUnmodifiedSince := f.ifUnmodifiedSince
  ifNoneMatch := f.ifNoneMatch.map (texts text)
  searchString := f.searchString.map (texts text)
  createdAfter := f.createdAfter
  createdBefore := f.createdBefore
  sizeFrom := f.sizeFrom
  sizeUntil := f.sizeUntil
  contentType := f.contentType.map (texts text)
  metaDataOnly := f.metaDataOnly

section Sets

variable {text : S ↪ String} {x y : Option (List S)}

theorem toFinset_intersection (hx : ∀ a ∈ x, a.Pairwise (· ≤ ·)) :
    (mergeBoth intersection x y).map (texts text) =
      inter (x.map (texts text)) (y.map (texts text)) := by
  rcases x with _ | a <;> rcases y with _ | b
  · rfl
  · rfl
  · rfl
  · refine congrArg some ?_
    rw [texts, texts, texts, ← Finset.map_inter]
    refine congrArg (Finset.map text) (Finset.ext fun s => ?_)
    rw [mem_toFinset, mem_intersection (hx a rfl), Finset.mem_inter, mem_toFinset,
      mem_toFinset, and_comm]

theorem toFinset_union (hx : ∀ a ∈ x, a.Pairwise (· ≤ ·)) :
    (mergeBoth unionSorted x y).map (texts text) =
      union (x.map (texts text)) (y.map (texts text)) := by
  rcases x with _ | a <;> rcases y with _ | b
  · rfl
  · rfl
  · rfl
  · refine congrArg some ?_
    rw [texts, texts, texts, ← Finset.map_union]
    refine congrArg (Finset.map text) (Finset.ext fun s => ?_)
    rw [mem_toFinset, mem_unionSorted (hx a rfl), Finset.mem_union, mem_toFinset,
      mem_toFinset]

theorem mergeBoth_least (a b : Option Int) :
    mergeBoth (fun a b => if a > b then b else a) a b = least a b := by
  rcases a with _ | a <;> rcases b with _ | b
  · rfl
  · rfl
  · rfl
  · simp only [mergeBoth, least]
    split <;> rfl

theorem mergeBoth_greatest (a b : Option Int) :
    mergeBoth (fun a b => if a < b then b else a) a b = greatest a b := by
  rcases a with _ | a <;> rcases b with _ | b
  · rfl
  · rfl
  · rfl
  · simp only [mergeBoth, greatest]
    split <;> rfl

theorem map_least (a b : Option Int) : (least a b).map (Date.mk 0) =
    earliest (a.map (Date.mk 0)) (b.map (Date.mk 0)) := by
  rcases a with _ | a <;> rcases b with _ | b
  · rfl
  · rfl
  · rfl
  · simp only [least, earliest, Option.map_some]
    split <;> rfl

/-- With sorted arrays the merge is that of the criteria with sets. -/
theorem toSets_merge {f g : FilterCriteria S} (text : S ↪ String) (hf : SortedArrays f) :
    toSets text (ContentInstances.merge f g) =
      Scl.ContentInstances.mergeFilterCriteria (toSets text f) (toSets text g) := by
  simp only [toSets, ContentInstances.merge, SclResource.merge, mergeBoth_least, mergeBoth_greatest,
    map_least, toFinset_intersection hf.ifNoneMatch, toFinset_union hf.searchString,
    toFinset_union hf.contentType, Scl.ContentInstances.mergeFilterCriteria,
    Scl.SclResource.mergeFilterCriteria]
  congr 1
  cases f.metaDataOnly <;> cases g.metaDataOnly <;> rfl

end Sets

/-! ## Upper bounds -/

/-- What one of the filters lets pass, another one does. -/
def UpperBound (meets : FilterCriteria S → Prop) (fs : List (Option (FilterCriteria S)))
    (m : Option (FilterCriteria S)) : Prop :=
  (∃ f ∈ fs, ∀ c ∈ f, meets c) → ∀ c ∈ m, meets c

section Criteria

variable {p : Parsers S} {r : Resource S} {f g : FilterCriteria S} {P : Int → Prop}
  {x y : Option Int}

theorem forall_smaller (hP : ∀ a b, a ≤ b → P b → P a) (h : (∀ n ∈ x, P n) ∨ ∀ n ∈ y, P n) :
    ∀ n ∈ mergeBoth (fun a b => if a > b then b else a) x y, P n := by
  intro n hn
  obtain ⟨a, ha, b, hb, rfl⟩ := mergeBoth_eq_some hn
  rcases h with h | h
  · exact hP _ a (by split <;> omega) (h a ha)
  · exact hP _ b (by split <;> omega) (h b hb)

theorem forall_larger (hP : ∀ a b, b ≤ a → P b → P a) (h : (∀ n ∈ x, P n) ∨ ∀ n ∈ y, P n) :
    ∀ n ∈ mergeBoth (fun a b => if a < b then b else a) x y, P n := by
  intro n hn
  obtain ⟨a, ha, b, hb, rfl⟩ := mergeBoth_eq_some hn
  rcases h with h | h
  · exact hP _ a (by split <;> omega) (h a ha)
  · exact hP _ b (by split <;> omega) (h b hb)

theorem exists_unionSorted {strings : List S} {x y : Option (List S)}
    (hx : ∀ a ∈ x, a.Pairwise (· ≤ ·))
    (h : (∀ a ∈ x, ∃ s ∈ a, s ∈ strings) ∨ ∀ a ∈ y, ∃ s ∈ a, s ∈ strings) :
    ∀ a ∈ mergeBoth unionSorted x y, ∃ s ∈ a, s ∈ strings := by
  intro c hc
  obtain ⟨a, ha, b, hb, rfl⟩ := mergeBoth_eq_some hc
  rcases h with h | h
  · obtain ⟨s, hs, hmem⟩ := h a ha
    exact ⟨s, (mem_unionSorted (hx a ha)).mpr (.inl hs), hmem⟩
  · obtain ⟨s, hs, hmem⟩ := h b hb
    exact ⟨s, (mem_unionSorted (hx a ha)).mpr (.inr hs), hmem⟩

theorem lastModifiedHolds_merge (hf : SortedArrays f)
    (h : LastModifiedHolds p r f ∨ LastModifiedHolds p r g) :
    LastModifiedHolds p r (SclResource.merge f g) := by
  intro t ht d hd
  refine ⟨?_, ?_, ?_⟩
  · exact forall_smaller (fun a b hab hb => by omega) (h.imp (fun h => (h t ht d hd).1)
      fun h => (h t ht d hd).1)
  · exact forall_larger (fun a b hab hb => by omega) (h.imp (fun h => (h t ht d hd).2.1)
      fun h => (h t ht d hd).2.1)
  · intro c hc hmem
    obtain ⟨a, ha, b, hb, rfl⟩ := mergeBoth_eq_some hc
    obtain ⟨hma, hmb⟩ := (mem_intersection (hf.ifNoneMatch a ha)).mp hmem
    rcases h with h | h
    · exact (h t ht d hd).2.2 a ha hma
    · exact (h t ht d hd).2.2 b hb hmb

theorem searchHolds_merge (hf : SortedArrays f) (h : SearchHolds r f ∨ SearchHolds r g) :
    SearchHolds r (SclResource.merge f g) := fun strings hstrings =>
  exists_unionSorted hf.searchString (h.imp (· strings hstrings) (· strings hstrings))

theorem typeHolds_merge (hf : SortedArrays f) (h : TypeHolds r f ∨ TypeHolds r g) :
    TypeHolds r (ContentInstances.merge f g) := fun types htypes =>
  exists_unionSorted hf.contentType (h.imp (· types htypes) (· types htypes))

theorem creationHolds_merge (h : CreationHolds p r f ∨ CreationHolds p r g) :
    CreationHolds p r (SclResource.merge f g) := by
  intro t ht d hd
  refine ⟨?_, ?_⟩
  · exact forall_smaller (fun a b hab hb => by omega) (h.imp (fun h => (h t ht d hd).1)
      fun h => (h t ht d hd).1)
  · exact forall_larger (fun a b hab hb => by omega) (h.imp (fun h => (h t ht d hd).2)
      fun h => (h t ht d hd).2)

theorem sizeFromHolds_merge (h : SizeFromHolds p r f ∨ SizeFromHolds p r g) :
    SizeFromHolds p r (ContentInstances.merge f g) := fun t ht =>
  forall_smaller (fun _ _ hab ⟨size, hsize, hb⟩ => ⟨size, hsize, Int.le_trans hab hb⟩)
    (h.imp (· t ht) (· t ht))

theorem meetsBase_merge (hf : SortedArrays f) (h : MeetsBase p r f ∨ MeetsBase p r g) :
    MeetsBase p r (SclResource.merge f g) :=
  ⟨lastModifiedHolds_merge hf (h.imp (·.1) (·.1)), searchHolds_merge hf (h.imp (·.2.1) (·.2.1)),
    creationHolds_merge (h.imp (·.2.2) (·.2.2))⟩

/-- The criteria but for the upper bound of the size. -/
def MeetsOthers (p : Parsers S) (r : Resource S) (f : FilterCriteria S) : Prop :=
  MeetsBase p r f ∧ SizeFromHolds p r f ∧ TypeHolds r f

omit [LinearOrder S] in
theorem meets_iff : Meets p r f ↔ MeetsOthers p r f ∧ SizeUntilHolds p r f := by
  rw [Meets, MeetsOthers, MeetsContent]
  tauto

theorem meetsOthers_merge (hf : SortedArrays f) (h : MeetsOthers p r f ∨ MeetsOthers p r g) :
    MeetsOthers p r (ContentInstances.merge f g) :=
  ⟨meetsBase_merge hf (h.imp (·.1) (·.1)), sizeFromHolds_merge (h.imp (·.2.1) (·.2.1)),
    typeHolds_merge hf (h.imp (·.2.2) (·.2.2))⟩

theorem sizeUntilHolds_merge : SizeUntilHolds p r (ContentInstances.merge f g) ↔
    (f.sizeUntil = none ∨ g.sizeUntil = none) ∨ SizeUntilHolds p r f ∧ SizeUntilHolds p r g := by
  unfold SizeUntilHolds
  rcases hf : f.sizeUntil with _ | a <;> rcases hg : g.sizeUntil with _ | b <;>
    simp only [ContentInstances.merge, hf, hg, mergeBoth, true_or, or_true, Option.mem_def,
      reduceCtorEq, false_imp_iff, implies_true, false_or, Option.some.injEq, forall_eq']
  constructor
  · intro h
    refine ⟨fun t ht => ?_, fun t ht => ?_⟩ <;> obtain ⟨size, hsize, hle⟩ := h t ht <;>
      refine ⟨size, hsize, ?_⟩ <;> split at hle <;> omega
  · rintro ⟨ha, hb⟩ t ht
    split
    · exact hb t ht
    · exact ha t ht

theorem sizeUntil_merge_eq_none : (ContentInstances.merge f g).sizeUntil = none ↔
    f.sizeUntil = none ∨ g.sizeUntil = none := by
  simp only [ContentInstances.merge]
  rcases f.sizeUntil with _ | a <;> rcases g.sizeUntil with _ | b <;> simp [mergeBoth]

end Criteria

section Lists

variable {α : Type} {merge : α → α → α} {f : Option α} {fs : List (Option α)}

theorem mergeBoth_none (x : Option α) : mergeBoth merge x none = none := by
  cases x <;> rfl

theorem foldl_none (fs : List (Option α)) : fs.foldl (mergeBoth merge) none = none := by
  induction fs with
  | nil => rfl
  | cons f fs ih => exact ih

theorem foldl_of_none_mem (h : none ∈ fs) : fs.foldl (mergeBoth merge) f = none := by
  induction fs generalizing f with
  | nil => cases h
  | cons g fs ih =>
    rcases mem_cons.mp h with rfl | h
    · rw [foldl_cons, mergeBoth_none]
      exact foldl_none fs
    · exact ih h

theorem mergeAll_of_none_mem (h : none ∈ fs) : mergeAll (mergeBoth merge) fs = none := by
  cases fs with
  | nil => cases h
  | cons f fs =>
    rcases mem_cons.mp h with rfl | h
    · exact foldl_none fs
    · exact foldl_of_none_mem h

theorem foldl_some (c : α) (cs : List α) :
    (cs.map some).foldl (mergeBoth merge) (some c) = some (cs.foldl merge c) := by
  induction cs generalizing c with
  | nil => rfl
  | cons d cs ih => exact ih (merge c d)

theorem exists_map_some (h : none ∉ fs) : ∃ cs : List α, fs = cs.map some := by
  induction fs with
  | nil => exact ⟨[], rfl⟩
  | cons f fs ih =>
    obtain ⟨hf, hfs⟩ := not_or.mp (mem_cons.not.mp h)
    obtain ⟨cs, rfl⟩ := ih hfs
    obtain ⟨c, rfl⟩ := Option.ne_none_iff_exists'.mp (Ne.symm hf)
    exact ⟨c :: cs, rfl⟩

theorem mergeAll_cases (merge : α → α → α) (hne : fs ≠ []) :
    (none ∈ fs ∧ mergeAll (mergeBoth merge) fs = none) ∨
      ∃ c cs, fs = (c :: cs).map some ∧ mergeAll (mergeBoth merge) fs = some (cs.foldl merge c) := by
  by_cases h : none ∈ fs
  · exact .inl ⟨h, mergeAll_of_none_mem h⟩
  · obtain ⟨cs, rfl⟩ := exists_map_some h
    cases cs with
    | nil => exact absurd rfl hne
    | cons c cs => exact .inr ⟨c, cs, rfl, foldl_some c cs⟩

theorem foldl_upper {P Q : α → Prop} (hQ : ∀ a b, Q a → Q b → Q (merge a b))
    (hP : ∀ a b, Q a → P a ∨ P b → P (merge a b)) (c : α) (cs : List α) (hc : ∀ x ∈ c :: cs, Q x)
    (h : ∃ x ∈ c :: cs, P x) : P (cs.foldl merge c) := by
  induction cs generalizing c with
  | nil =>
    obtain ⟨x, hx, hPx⟩ := h
    rwa [mem_singleton.mp hx] at hPx
  | cons d cs ih =>
    obtain ⟨hQc, hcs⟩ := forall_mem_cons.mp hc
    obtain ⟨hQd, hcs⟩ := forall_mem_cons.mp hcs
    refine ih (merge c d) (forall_mem_cons.mpr ⟨hQ c d hQc hQd, hcs⟩) ?_
    obtain ⟨x, hx, hPx⟩ := h
    rcases mem_cons.mp hx with rfl | hx
    · exact ⟨_, mem_cons_self, hP _ d hQc (.inl hPx)⟩
    · rcases mem_cons.mp hx with rfl | hx
      · exact ⟨_, mem_cons_self, hP c _ hQc (.inr hPx)⟩
      · exact ⟨x, mem_cons_of_mem _ hx, hPx⟩

theorem foldl_kept {Q : α → Prop} (hQ : ∀ a b, Q a → Q b → Q (merge a b)) (c : α) (cs : List α)
    (hc : ∀ x ∈ c :: cs, Q x) : Q (cs.foldl merge c) := by
  induction cs generalizing c with
  | nil => exact hc c mem_cons_self
  | cons d cs ih =>
    obtain ⟨hQc, hcs⟩ := forall_mem_cons.mp hc
    obtain ⟨hQd, hcs⟩ := forall_mem_cons.mp hcs
    exact ih (merge c d) (forall_mem_cons.mpr ⟨hQ c d hQc hQd, hcs⟩)

end Lists

section Main

variable (p : Parsers S) (r : Resource S) (fs : List (Option (FilterCriteria S)))

/-- Where one of the filters lets the resource pass, some filter has no upper bound of the size, or
the size is at most all of them. -/
def UntilCondition : Prop :=
  (∃ f ∈ fs, ∀ c ∈ f, Meets p r c) →
    (∃ f ∈ fs, ∀ c ∈ f, c.sizeUntil = none) ∨ ∀ f ∈ fs, ∀ c ∈ f, SizeUntilHolds p r c

variable {p r fs}

theorem sizeUntilHolds_foldl (c : FilterCriteria S) (cs : List (FilterCriteria S)) :
    SizeUntilHolds p r (cs.foldl ContentInstances.merge c) ↔
      (∃ x ∈ c :: cs, x.sizeUntil = none) ∨ ∀ x ∈ c :: cs, SizeUntilHolds p r x := by
  induction cs generalizing c with
  | nil =>
    simp only [foldl_nil, mem_singleton, exists_eq_left, forall_eq]
    refine ⟨.inr, fun h => h.elim (fun hnone t _ n hn => ?_) id⟩
    rw [hnone] at hn
    cases hn
  | cons d cs ih =>
    rw [foldl_cons, ih]
    simp only [mem_cons, exists_eq_or_imp, forall_eq_or_imp, sizeUntil_merge_eq_none,
      sizeUntilHolds_merge]
    generalize (∃ a, a ∈ cs ∧ a.sizeUntil = none) = unset
    tauto

theorem sorted_mergeAll {merge : FilterCriteria S → FilterCriteria S → FilterCriteria S}
    (hmerge : ∀ f g, SortedArrays f → SortedArrays g → SortedArrays (merge f g))
    (hsorted : ∀ f ∈ fs, ∀ c ∈ f, SortedArrays c) :
    ∀ c ∈ mergeAll (mergeBoth merge) fs, SortedArrays c := by
  intro m hm
  by_cases hne : fs = []
  · subst hne
    cases hm
  rcases mergeAll_cases merge hne with ⟨-, heq⟩ | ⟨c, cs, rfl, heq⟩
  · rw [heq] at hm
    cases hm
  · obtain rfl := Option.some.inj (heq.symm.trans hm)
    exact foldl_kept hmerge c cs fun x hx => hsorted (some x) (mem_map_of_mem hx) x rfl

theorem upperBound_base (hsorted : ∀ f ∈ fs, ∀ c ∈ f, SortedArrays c) :
    UpperBound (MeetsBase p r) fs (mergeAll SclResource.mergeFilterCriteria fs) := by
  intro hpass m hm
  by_cases hne : fs = []
  · subst hne
    cases hm
  rcases mergeAll_cases SclResource.merge hne with ⟨-, heq⟩ | ⟨c, cs, rfl, heq⟩
  · rw [SclResource.mergeFilterCriteria, heq] at hm
    cases hm
  · obtain rfl := Option.some.inj (heq.symm.trans hm)
    obtain ⟨f, hf, hmeets⟩ := hpass
    obtain ⟨x, hx, rfl⟩ := mem_map.mp hf
    exact foldl_upper (fun _ _ ha hb => (ha.merge hb).1) (fun _ _ ha hb => meetsBase_merge ha hb) c cs
      (fun y hy => hsorted (some y) (mem_map_of_mem hy) y rfl) ⟨x, hx, hmeets x rfl⟩

theorem upperBound_iff (hsorted : ∀ f ∈ fs, ∀ c ∈ f, SortedArrays c) :
    UpperBound (Meets p r) fs (mergeAll ContentInstances.mergeFilterCriteria fs) ↔
      UntilCondition p r fs := by
  by_cases hne : fs = []
  · subst hne
    exact iff_of_true (fun _ _ hm => by cases hm) fun ⟨f, hf, _⟩ => by cases hf
  rcases mergeAll_cases ContentInstances.merge hne with ⟨hnone, heq⟩ | ⟨c, cs, rfl, heq⟩
  · rw [ContentInstances.mergeFilterCriteria, heq]
    exact iff_of_true (fun _ _ hm => by cases hm)
      fun _ => .inl ⟨none, hnone, fun _ hc => by cases hc⟩
  · rw [ContentInstances.mergeFilterCriteria, heq]
    have hothers : (∃ f ∈ (c :: cs).map some, ∀ x ∈ f, Meets p r x) →
        (Meets p r (cs.foldl ContentInstances.merge c) ↔
          SizeUntilHolds p r (cs.foldl ContentInstances.merge c)) := by
      rintro ⟨f, hf, hmeets⟩
      obtain ⟨x, hx, rfl⟩ := mem_map.mp hf
      have := foldl_upper (fun _ _ ha hb => (ha.merge hb).2) (fun _ _ ha hb => meetsOthers_merge ha hb)
        c cs (fun y hy => hsorted (some y) (mem_map_of_mem hy) y rfl)
        ⟨x, hx, (meets_iff.mp (hmeets x rfl)).1⟩
      rw [meets_iff]
      exact and_iff_right this
    have huntil : SizeUntilHolds p r (cs.foldl ContentInstances.merge c) ↔
        (∃ f ∈ (c :: cs).map some, ∀ x ∈ f, x.sizeUntil = none) ∨
          ∀ f ∈ (c :: cs).map some, ∀ x ∈ f, SizeUntilHolds p r x := by
      rw [sizeUntilHolds_foldl]
      simp
    refine forall_congr' fun hpass => ?_
    rw [← huntil, ← hothers hpass]
    exact ⟨fun h => h _ rfl, fun h m hm => by rwa [← Option.some.inj hm]⟩

variable (p r fs)

/-- **Merged filters.**  The criteria that all resources are tested for are merged into an upper
bound. All the criteria are if and only if some filter has no upper bound of the size, or the size
is at most all of them, where one of the filters lets the resource pass.  The arrays stay sorted. -/
theorem merge_upperBound_iff (hsorted : ∀ f ∈ fs, ∀ c ∈ f, SortedArrays c) :
    UpperBound (MeetsBase p r) fs (mergeAll SclResource.mergeFilterCriteria fs) ∧
      (UpperBound (Meets p r) fs (mergeAll ContentInstances.mergeFilterCriteria fs) ↔
        UntilCondition p r fs) ∧
      (∀ c ∈ mergeAll SclResource.mergeFilterCriteria fs, SortedArrays c) ∧
      ∀ c ∈ mergeAll ContentInstances.mergeFilterCriteria fs, SortedArrays c :=
  ⟨upperBound_base hsorted, upperBound_iff hsorted,
    sorted_mergeAll (fun _ _ hf hg => (hf.merge hg).1) hsorted,
    sorted_mergeAll (fun _ _ hf hg => (hf.merge hg).2) hsorted⟩

end Main

/-- A filter that asks for a size that is at most a number. -/
def atMost (n : Int) : FilterCriteria String where
  ifModifiedSince := none
  ifUnmodifiedSince := none
  ifNoneMatch := some ["1", "2"]
  searchString := none
  createdAfter := none
  createdBefore := none
  sizeFrom := none
  sizeUntil := some n
  contentType := none
  metaDataOnly := none

theorem sorted_atMost (n : Int) : SortedArrays (atMost n) where
  ifNoneMatch a ha := by
    obtain rfl := Option.some.inj ha
    decide +kernel
  searchString a ha := by cases ha
  contentType a ha := by cases ha

theorem toSets_merge_atMost :
    toSets (.refl String) (ContentInstances.merge (atMost 10) (atMost 20)) =
      Scl.ContentInstances.mergeFilterCriteria (toSets (.refl String) (atMost 10))
        (toSets (.refl String) (atMost 20)) :=
  toSets_merge (.refl String) (sorted_atMost 10)

theorem merge_atMost :
    UpperBound (MeetsBase digitsOnly labelled) [some (atMost 10), some (atMost 20)]
        (mergeAll SclResource.mergeFilterCriteria [some (atMost 10), some (atMost 20)]) ∧
      (UpperBound (Meets digitsOnly labelled) [some (atMost 10), some (atMost 20)]
          (mergeAll ContentInstances.mergeFilterCriteria [some (atMost 10), some (atMost 20)]) ↔
        UntilCondition digitsOnly labelled [some (atMost 10), some (atMost 20)]) ∧
      (∀ c ∈ mergeAll SclResource.mergeFilterCriteria [some (atMost 10), some (atMost 20)],
        SortedArrays c) ∧
      ∀ c ∈ mergeAll ContentInstances.mergeFilterCriteria [some (atMost 10), some (atMost 20)],
        SortedArrays c := by
  refine merge_upperBound_iff digitsOnly labelled [some (atMost 10), some (atMost 20)] ?_
  intro f hf c hc
  rcases mem_cons.mp hf with rfl | hf
  · obtain rfl := Option.some.inj hc
    exact sorted_atMost 10
  · obtain rfl := mem_singleton.mp hf
    obtain rfl := Option.some.inj hc
    exact sorted_atMost 20

/-- A content of seven bytes passes the second of two filters, but not their merge. -/
theorem smaller_bound_kept : ¬ UpperBound (Meets digitsOnly labelled)
    [some (atMost 5), some (atMost 10)]
    (mergeAll ContentInstances.mergeFilterCriteria [some (atMost 5), some (atMost 10)]) := by
  intro h
  have hmodified : LastModifiedHolds digitsOnly labelled (atMost 10) := by
    refine fun t ht d _ => ⟨(fun n hn => by cases hn), (fun n hn => by cases hn), fun tags htags => ?_⟩
    obtain rfl := Option.some.inj ht
    obtain rfl := Option.some.inj htags
    decide +kernel
  have hsearch : SearchHolds labelled (atMost 10) := fun _ _ _ h => by cases h
  have hcreation : CreationHolds digitsOnly labelled (atMost 10) := fun _ _ _ _ =>
    ⟨(fun n hn => by cases hn), (fun n hn => by cases hn)⟩
  have hfrom : SizeFromHolds digitsOnly labelled (atMost 10) := fun _ _ n hn => by cases hn
  have huntil : SizeUntilHolds digitsOnly labelled (atMost 10) := by
    intro t ht n hn
    obtain rfl := Option.some.inj ht
    obtain rfl := Option.some.inj hn
    exact ⟨7, by decide +kernel, by decide⟩
  have htype : TypeHolds labelled (atMost 10) := fun _ _ _ h => by cases h
  have hpass : Meets digitsOnly labelled (atMost 10) :=
    meets_iff.mpr ⟨⟨⟨hmodified, hsearch, hcreation⟩, hfrom, htype⟩, huntil⟩
  have hmerged := h ⟨some (atMost 10), by simp, fun c hc => Option.some.inj hc ▸ hpass⟩ _ rfl
  obtain ⟨size, hsize, hle⟩ := (meets_iff.mp hmerged).2 "7" rfl 5 (by decide +kernel)
  have hseven : readDigits "7" = some 7 := by decide +kernel
  obtain rfl := Option.some.inj (hsize.symm.trans hseven)
  exact absurd hle (by decide)

end Ong.Scl.FilterArrays
