import Ong.Lib.OldestFirst
import Ong.Scl.ContentInstancesAge

/-!
# The limits of the container trim the oldest instances, and no more than they ask for

The trimming takes the stored instances by name.  It is by creation time, and ends, when the names
are in the order of the creation times as far as it goes, and when a page starts after the creation
time of the last instance of the page before it.

## Main results

* `At.page`: what a page of the second trimming deletes
* `trimsOldest_of_condition`: the trimming is as stated exactly under the condition
-/

namespace Ong.Scl

open M2M ContentInstances Lib List Prod

/-- The creation time of an instance under its name. -/
def timeOf (d : String × ContentInstance) : ℤ := d.2.creationTime

/-- The total size of some instances. -/
def sizesOf (found : List (String × ContentInstance)) : ℤ :=
  (found.map fun d => d.2.contentSize).sum

/-- The stored instances, by name. -/
def byName (storage : Storage) (path : Path) : List (String × ContentInstance) :=
  sorted storage path fun _ => true

/-- The stored instances without a condition, counted by the attributes of the collection, which are
values of `long`. -/
structure Counted (storage : Storage) (path : Path) (r : ContentInstances) : Prop where
  nb_eq : r.currentNrOfInstances = nbInstances storage path
  size_eq : r.currentByteSize = byteSize storage path
  sizes : ∀ d ∈ childInstances storage path, 0 ≤ d.2.contentSize
  bound : byteSize storage path < 2 ^ 63

section Limits

variable (storage : Storage) (path : Path) (c : Container) (nb size : ℤ)

/-- The number of instances is right with `nb` more, without those to delete. -/
def NbFits (found : List (String × ContentInstance)) : Prop :=
  0 < c.maxNrOfInstances.getD (-1) →
    nbInstances storage path - found.length + nb ≤ c.maxNrOfInstances.getD (-1)

/-- The size is right with `size` more bytes, without the instances to delete. -/
def SizeFits (found : List (String × ContentInstance)) : Prop :=
  0 < c.maxByteSize.getD (-1) →
    byteSize storage path - sizesOf found + size ≤ c.maxByteSize.getD (-1)

/-- Both limits. -/
def FitsWithout (found : List (String × ContentInstance)) : Prop :=
  NbFits storage path c nb found ∧ SizeFits storage path c size found

/-- The instances under `names` are stored, each named once; they are the oldest in an order of the
creation times, and the first that make the others and the new ones fit. -/
structure TrimsOldest (names : List String) : Prop where
  nodup : names.Nodup
  stored : ∀ name ∈ names, ∃ ci,
    storage.lookup (childPath path name) = some (.contentInstance ci)
  oldest : ∃ found, names = found.map Prod.fst ∧
    OldestFirst timeOf (childInstances storage path) found ∧
    FitsWithout storage path c nb size found ∧
    ∀ pre, pre <+: found → pre ≠ found → ¬ FitsWithout storage path c nb size pre

/-- How many of `count` results a search gives. -/
def limited (limit : ℤ) (count : ℕ) : ℕ := if 0 < limit then min limit.toNat count else count

/-- How many instances the search for the limit on the number gives. -/
def firstPage : ℕ :=
  if c.maxNrOfInstances.getD (-1) > 0 ∧
      toLong (nbInstances storage path + nb) > c.maxNrOfInstances.getD (-1)
  then limited (toInt (toLong (nbInstances storage path + nb) - c.maxNrOfInstances.getD (-1)))
    (childInstances storage path).length
  else 0

/-- The names are in the order of the creation times as far as instances have to go, and what a page
leaves to the next is after its last instance.  The search for the limit on the number gives neither
too many nor too few; the size that is left is a value of `long`. -/
structure TrimCondition : Prop where
  few : ∀ pre, pre <+: byName storage path → pre.length < firstPage storage path c nb →
    ¬ FitsWithout storage path c nb size pre
  enough : ∀ pre, pre <+: byName storage path → firstPage storage path c nb ≤ pre.length →
    SizeFits storage path c size pre → NbFits storage path c nb pre
  long : 0 < c.maxByteSize.getD (-1) →
    byteSize storage path -
      sizesOf ((byName storage path).take (firstPage storage path c nb)) + size < 2 ^ 63
  order : ∀ pre d rest, byName storage path = pre ++ d :: rest →
    ¬ FitsWithout storage path c nb size pre → ∀ e ∈ rest, timeOf d ≤ timeOf e
  pages : ∀ pre d e rest, byName storage path = pre ++ d :: e :: rest →
    ¬ FitsWithout storage path c nb size (pre ++ [d]) →
    firstPage storage path c nb ≤ pre.length + 1 →
    (pre.length + 1 - firstPage storage path c nb) % 4 = 0 → timeOf d < timeOf e

end Limits

variable {storage : Storage} {path : Path}

section ByName

variable {r : ContentInstances} {pre found rest : List (String × ContentInstance)}

@[simp] theorem sizesOf_nil : sizesOf [] = 0 := rfl

theorem sizesOf_append (found found' : List (String × ContentInstance)) :
    sizesOf (found ++ found') = sizesOf found + sizesOf found' := by
  simp [sizesOf]

section

variable (storage : Storage) (path : Path)

theorem byName_perm : (byName storage path).Perm (childInstances storage path) := by
  unfold byName sorted
  rw [filter_true]
  exact perm_insertionSort _ _

theorem nodup_childInstances : ((childInstances storage path).map fst).Nodup := by
  refine pairwise_map.mpr (List.Pairwise.filterMap _ ?_
    (nodupKeys_iff_pairwise.mp storage.nodupKeys))
  intro e e' hne d hd d' hd' heq
  obtain ⟨hp, -⟩ := childInstance_eq_some.mp hd
  obtain ⟨hp', -⟩ := childInstance_eq_some.mp hd'
  exact hne (by rw [hp, hp', heq])

theorem sizesOf_byName : sizesOf (byName storage path) = byteSize storage path := by
  rw [byteSize, instanceTotal_eq_sum]
  exact ((byName_perm storage path).map _).sum_eq

theorem length_byName : (byName storage path).length = (childInstances storage path).length :=
  (byName_perm storage path).length_eq

variable (condition : ContentInstance → Bool)

theorem sorted_eq_filter :
    sorted storage path condition = (byName storage path).filter fun d => condition d.2 := by
  have hmem : ∀ d ∈ sorted storage path condition, d ∈ childInstances storage path :=
    fun d hd => (mem_sorted.mp hd).1
  refine Perm.eq_of_pairwise ?_ (pairwise_sorted storage path condition)
    ((pairwise_sorted storage path fun _ => true).filter _) ?_
  · intro a b ha hb hab hba
    have hb := (byName_perm storage path).mem_iff.mp (mem_filter.mp hb).1
    exact eq_of_name_eq (hmem a ha) hb (String.le_antisymm hab hba)
  · exact (perm_insertionSort _ _).trans ((byName_perm storage path).symm.filter _)

theorem search_eq (limit : ℤ) :
    search storage path condition limit =
      (sorted storage path condition).take (limited limit (sorted storage path condition).length) := by
  unfold search limited
  change (if limit > 0 then (sorted storage path condition).take limit.toNat
    else sorted storage path condition) = _
  split
  · rw [← take_eq_take_min]
  · rw [take_length]

end

variable (hsizes : ∀ d ∈ childInstances storage path, 0 ≤ d.2.contentSize)
include hsizes

theorem sizesOf_nonneg (hfound : ∀ d ∈ found, d ∈ childInstances storage path) :
    0 ≤ sizesOf found := by
  refine sum_nonneg fun x hx => ?_
  obtain ⟨d, hd, rfl⟩ := mem_map.mp hx
  exact hsizes d (hfound d hd)

theorem sizesOf_le (hpre : pre <+: found) (hfound : found <+: byName storage path) :
    sizesOf pre ≤ sizesOf found := by
  obtain ⟨more, rfl⟩ := hpre
  have hmore : 0 ≤ sizesOf more := sizesOf_nonneg hsizes fun d hd =>
    (byName_perm storage path).mem_iff.mp (hfound.subset (mem_append_right pre hd))
  rw [sizesOf_append]
  omega

theorem sizesOf_le_byteSize (hpre : pre <+: byName storage path) :
    sizesOf pre ≤ byteSize storage path := by
  rw [← sizesOf_byName]
  exact sizesOf_le hsizes hpre prefix_rfl

theorem FitsWithout.mono {c : Container} {nb size : ℤ}
    (h : FitsWithout storage path c nb size pre) (hpre : pre <+: found)
    (hfound : found <+: byName storage path) : FitsWithout storage path c nb size found := by
  have hsize := sizesOf_le hsizes hpre hfound
  have hlength := hpre.length_le
  refine ⟨fun hmax => ?_, fun hmax => ?_⟩
  · have := h.1 hmax
    omega
  · have := h.2 hmax
    omega

end ByName

variable {c : Container} {nb size maxByteSize : ℤ}

section Page

theorem trimPage_spec (maxByteSize : ℤ) {t : Trimming} {page : List (String × ContentInstance)}
    (hpage : page ≠ [])
    (hlong : ∀ pre, pre <+: page → InLong (t.currentByteSize - sizesOf pre)) :
    ∃ found rest, page = found ++ rest ∧ found ≠ [] ∧
      (trimPage maxByteSize page t).deleted = t.deleted ++ found.map fst ∧
      (trimPage maxByteSize page t).currentByteSize = t.currentByteSize - sizesOf found ∧
      (trimPage maxByteSize page t).lastCiCreationTimeToDelete = found.getLast?.map timeOf ∧
      (∀ pre, pre <+: found → pre ≠ [] → pre ≠ found →
        maxByteSize < t.currentByteSize - sizesOf pre) ∧
      (rest ≠ [] → t.currentByteSize - sizesOf found ≤ maxByteSize) := by
  induction page generalizing t with
  | nil => exact absurd rfl hpage
  | cons d page ih =>
    have hone : ∀ pre, sizesOf (d :: pre) = d.2.contentSize + sizesOf pre := fun _ => rfl
    have hfirst : toLong (t.currentByteSize - d.2.contentSize) =
        t.currentByteSize - d.2.contentSize := by
      refine toLong_of_inLong ?_
      simpa [hone, sizesOf] using hlong [d] ⟨page, rfl⟩
    obtain ⟨name, ci⟩ := d
    unfold ContentInstances.trimPage
    dsimp only at hfirst hone ⊢
    rw [hfirst]
    split
    · next hend =>
      refine ⟨[(name, ci)], page, rfl, cons_ne_nil _ _, rfl, ?_, rfl, ?_, fun hrest => ?_⟩
      · simp [sizesOf]
      · intro pre hpre hnil hne
        rcases prefix_cons_iff.mp hpre with rfl | ⟨pre', rfl, hpre'⟩
        · exact absurd rfl hnil
        · exact absurd (by rw [prefix_nil.mp hpre']) hne
      · simpa [hone, sizesOf] using hend.resolve_left hrest
    · next hmore =>
      obtain ⟨hmore, hsize⟩ := not_or.mp hmore
      obtain ⟨found, rest, rfl, hne, hdeleted, hcurrent, hlast, hover, hstop⟩ := ih
        (t := { t with
          currentByteSize := t.currentByteSize - ci.contentSize
          currentNbOfInstances := toLong (t.currentNbOfInstances - 1)
          deleted := t.deleted ++ [name] }) hmore fun pre hpre => by
            have := hlong ((name, ci) :: pre) (cons_prefix_cons.mpr ⟨rfl, hpre⟩)
            rwa [hone, ← Int.sub_sub] at this
      dsimp only at hdeleted hcurrent hover hstop
      refine ⟨(name, ci) :: found, rest, rfl, cons_ne_nil _ _, ?_, ?_, ?_, ?_, fun hrest => ?_⟩
      · rw [hdeleted, append_assoc]
        rfl
      · rw [hcurrent, hone]
        omega
      · rw [hlast, getLast?_cons]
        rw [getLast?_eq_some_getLast hne]
        rfl
      · intro pre hpre hnil hne
        rcases prefix_cons_iff.mp hpre with rfl | ⟨pre', rfl, hpre'⟩
        · exact absurd rfl hnil
        · rw [hone, ← Int.sub_sub]
          by_cases hpreNil : pre' = []
          · subst hpreNil
            rw [sizesOf_nil, Int.sub_zero]
            exact Int.not_le.mp hsize
          · exact hover pre' hpre' hpreNil fun heq => hne (by rw [heq])
      · have := hstop hrest
        rw [hone]
        omega

variable {t : Trimming} {pre found rest : List (String × ContentInstance)}

/-- The variables before a page, when the instances `pre` are to be deleted. -/
structure At (storage : Storage) (path : Path) (size : ℤ) (pre : List (String × ContentInstance))
    (t : Trimming) : Prop where
  isPrefix : pre <+: byName storage path
  deleted : t.deleted = pre.map Prod.fst
  current : t.currentByteSize = byteSize storage path - sizesOf pre + size
  last : t.lastCiCreationTimeToDelete = pre.getLast?.map timeOf
  long : byteSize storage path - sizesOf pre + size < 2 ^ 63

/-- The time of the last instance to delete separates `pre` from `rest`. -/
def Aligned (pre rest : List (String × ContentInstance)) : Prop :=
  ∀ last ∈ pre.getLast?, (∀ d ∈ pre, timeOf d ≤ timeOf last) ∧ ∀ e ∈ rest, timeOf last < timeOf e

theorem At.search_eq (h : At storage path size pre t) (hrest : byName storage path = pre ++ rest)
    (haligned : Aligned pre rest) :
    search storage path (isAfter t.lastCiCreationTimeToDelete) 4 = rest.take 4 := by
  have hsorted : sorted storage path (isAfter t.lastCiCreationTimeToDelete) = rest := by
    rw [sorted_eq_filter, h.last, hrest]
    cases hlast : pre.getLast? with
    | none =>
      rw [getLast?_eq_none_iff.mp hlast]
      exact filter_true _
    | some last =>
      obtain ⟨hpre, hafter⟩ := haligned last hlast
      exact filter_after hpre hafter
  rw [← hsorted]
  rfl

variable (hsizes : ∀ d ∈ childInstances storage path, 0 ≤ d.2.contentSize) (hsize : InLong size)
include hsizes hsize

/-- **One page** deletes the next four instances, up to the one that brings the size under the
limit. -/
theorem At.page (h : At storage path size pre t) (hrest : byName storage path = pre ++ rest)
    (hne : rest ≠ []) (haligned : Aligned pre rest) :
    ∃ found, found ≠ [] ∧ found <+: rest ∧ found.length ≤ 4 ∧
      At storage path size (pre ++ found) (trimPage maxByteSize
        (search storage path (isAfter t.lastCiCreationTimeToDelete) 4) t) ∧
      (∀ more, more <+: found → more ≠ [] → more ≠ found →
        maxByteSize < byteSize storage path - sizesOf (pre ++ more) + size) ∧
      (found.length < 4 → found ≠ rest →
        byteSize storage path - sizesOf (pre ++ found) + size ≤ maxByteSize) := by
  have hcurrent : ∀ more, t.currentByteSize - sizesOf more =
      byteSize storage path - sizesOf (pre ++ more) + size := by
    intro more
    rw [h.current, sizesOf_append]
    omega
  have hbefore : ∀ {more}, more <+: rest.take 4 → pre ++ more <+: byName storage path := by
    intro more hmore
    rw [hrest]
    exact (prefix_append_right_inj pre).mpr (hmore.trans (List.take_prefix 4 rest))
  have hlong : ∀ more, more <+: rest.take 4 → InLong (t.currentByteSize - sizesOf more) := by
    intro more hmore
    have hbelow := sizesOf_le_byteSize hsizes (hbefore hmore)
    have habove := sizesOf_le hsizes (prefix_append pre more) (hbefore hmore)
    have hpre := h.long
    have hlow := hsize.1
    rw [hcurrent]
    exact ⟨by omega, by omega⟩
  rw [h.search_eq hrest haligned]
  obtain ⟨found, more, htake, hfound, hdeleted, hsizes', hlast, hover, hstop⟩ :=
    trimPage_spec maxByteSize (by simpa using hne) hlong
  have hfoundTake : found <+: rest.take 4 := ⟨more, htake.symm⟩
  refine ⟨found, hfound, hfoundTake.trans (List.take_prefix 4 rest),
    hfoundTake.length_le.trans (length_take_le 4 rest), ⟨hbefore hfoundTake, ?_, ?_, ?_, ?_⟩,
    ?_, ?_⟩
  · rw [hdeleted, h.deleted, map_append]
  · rw [hsizes', hcurrent]
  · rw [hlast, getLast?_append_of_ne_nil _ hfound]
  · exact (hcurrent found).symm.trans_lt (hlong found hfoundTake).2
  · intro more hmore hnil hne
    rw [← hcurrent]
    exact hover more hmore hnil hne
  · intro hlength hall
    rw [← hcurrent]
    refine hstop fun hnil => hall ?_
    rw [hnil, append_nil] at htake
    rw [← htake] at hlength ⊢
    refine take_of_length_le ?_
    rw [length_take] at hlength
    omega

end Page

variable {t t' : Trimming}

section Loop

variable {pre found rest : List (String × ContentInstance)}

/-- From `pre` on, the loop deletes the instances of `found` that `pre` does not have, up to the
first that brings the size under the limit. -/
structure Deletes (storage : Storage) (path : Path) (size maxByteSize : ℤ)
    (pre found : List (String × ContentInstance)) (t : Trimming) : Prop where
  at_found : At storage path size found t
  isPrefix : pre <+: found
  size_le : byteSize storage path - sizesOf found + size ≤ maxByteSize
  lt_size : ∀ mid, pre <+: mid → mid <+: found → mid ≠ found →
    maxByteSize < byteSize storage path - sizesOf mid + size

theorem trimBytes_of_le {fuel : ℕ} (h : t.currentByteSize ≤ maxByteSize) :
    trimBytes storage path maxByteSize fuel t = some t := by
  unfold trimBytes
  exact if_pos h

theorem trimBytes_of_lt {fuel : ℕ} (h : maxByteSize < t.currentByteSize)
    (hpage : search storage path (isAfter t.lastCiCreationTimeToDelete) 4 ≠ []) :
    trimBytes storage path maxByteSize (fuel + 1) t = trimBytes storage path maxByteSize fuel
      (trimPage maxByteSize (search storage path (isAfter t.lastCiCreationTimeToDelete) 4) t) := by
  rw [trimBytes, if_neg (not_le.mpr h)]
  split
  · next hnil => exact absurd hnil hpage
  · rfl

theorem At.deletes_self (h : At storage path size pre t) (hle : t.currentByteSize ≤ maxByteSize) :
    Deletes storage path size maxByteSize pre pre t := by
  refine ⟨h, prefix_rfl, by rwa [h.current] at hle, fun mid hpre hmid hne => ?_⟩
  exact absurd (hmid.eq_of_length_le hpre.length_le) hne

theorem Deletes.of_page (h : Deletes storage path size maxByteSize (pre ++ found) rest t)
    (hover : ∀ more, more <+: found → more ≠ [] → more ≠ found →
      maxByteSize < byteSize storage path - sizesOf (pre ++ more) + size)
    (hpre : maxByteSize < byteSize storage path - sizesOf pre + size) :
    Deletes storage path size maxByteSize pre rest t := by
  refine ⟨h.at_found, (prefix_append pre found).trans h.isPrefix, h.size_le, ?_⟩
  intro mid hmid hrest hne
  by_cases hfound : pre ++ found <+: mid
  · exact h.lt_size mid hfound hrest hne
  · obtain ⟨more, rfl⟩ := hmid
    have hmore : more <+: found := by
      refine (prefix_append_right_inj pre).mp ?_
      exact (List.prefix_or_prefix_of_prefix hrest h.isPrefix).resolve_right hfound
    by_cases hnil : more = []
    · rwa [hnil, append_nil]
    · refine hover more hmore hnil fun heq => hfound ?_
      rw [heq]

/-- What is taken after `pre` on the pages, given what is taken before. -/
def PagesFrom (storage : Storage) (path : Path) (size maxByteSize : ℤ)
    (pre : List (String × ContentInstance)) : Prop :=
  ∀ before d e rest, byName storage path = before ++ d :: e :: rest →
    maxByteSize < byteSize storage path - sizesOf (before ++ [d]) + size →
    pre.length ≤ before.length + 1 → (before.length + 1 - pre.length) % 4 = 0 → timeOf d < timeOf e

/-- The instances that have to go from `pre` on are in the order of the creation times. -/
def OrderedFrom (storage : Storage) (path : Path) (size maxByteSize : ℤ)
    (pre : List (String × ContentInstance)) : Prop :=
  ∀ before d rest, byName storage path = before ++ d :: rest →
    maxByteSize < byteSize storage path - sizesOf before + size ∨ before.length < pre.length →
    ∀ e ∈ rest, timeOf d ≤ timeOf e

theorem exists_rest (hfits : size ≤ maxByteSize) (h : At storage path size pre t)
    (hlt : maxByteSize < t.currentByteSize) : ∃ e rest, byName storage path = pre ++ e :: rest := by
  obtain ⟨rest, hrest⟩ := h.isPrefix
  cases rest with
  | nil =>
    rw [append_nil] at hrest
    rw [h.current, hrest, sizesOf_byName] at hlt
    omega
  | cons e rest => exact ⟨e, rest, hrest.symm⟩

theorem aligned_of_ordered {e : String × ContentInstance}
    (hpages : PagesFrom storage path size maxByteSize pre)
    (hordered : OrderedFrom storage path size maxByteSize pre)
    (hrest : byName storage path = pre ++ e :: rest)
    (hpre : maxByteSize < byteSize storage path - sizesOf pre + size) : Aligned pre (e :: rest) := by
  intro last hlast
  obtain ⟨before, rfl⟩ := getLast?_eq_some_iff.mp hlast
  have hlt : timeOf last < timeOf e :=
    hpages before last e rest (by rw [hrest, append_assoc]; rfl) hpre (by simp) (by simp)
  refine ⟨fun d hd => ?_, fun e' he' => ?_⟩
  · obtain ⟨a, b, hab⟩ := append_of_mem hd
    have hsplit : byName storage path = a ++ d :: (b ++ e :: rest) := by
      rw [hrest, hab, append_assoc, cons_append]
    have hlastMem : last ∈ d :: b := by
      rw [hab, getLast?_append_of_ne_nil _ (cons_ne_nil d b)] at hlast
      exact mem_of_getLast? hlast
    rcases mem_cons.mp hlastMem with rfl | hlastMem
    · exact le_rfl
    · refine hordered a d _ hsplit (.inr ?_) last (mem_append_left _ hlastMem)
      rw [hab, length_append, length_cons]
      omega
  · rcases mem_cons.mp he' with rfl | he'
    · exact hlt
    · exact hlt.trans_le (hordered _ e rest hrest (.inl hpre) e' he')

/-- The deletions stay in order over a page. -/
theorem OrderedFrom.page (h : OrderedFrom storage path size maxByteSize pre)
    (hrest : byName storage path = pre ++ rest) (hfound : found <+: rest)
    (hover : ∀ more, more <+: found → more ≠ [] → more ≠ found →
      maxByteSize < byteSize storage path - sizesOf (pre ++ more) + size)
    (hpre : maxByteSize < byteSize storage path - sizesOf pre + size) :
    OrderedFrom storage path size maxByteSize (pre ++ found) := by
  intro before d after hsplit hor
  refine h before d after hsplit ?_
  rcases hor with hlt | hlength
  · exact .inl hlt
  · rw [or_iff_not_imp_right, not_lt]
    intro hle
    have hbefore : before <+: pre ++ found := by
      refine prefix_of_prefix_length_le ⟨d :: after, hsplit.symm⟩ ?_ hlength.le
      rw [hrest]
      exact (prefix_append_right_inj pre).mpr hfound
    obtain ⟨more, rfl⟩ := prefix_of_prefix_length_le (prefix_append pre found) hbefore hle
    have hmore := (prefix_append_right_inj pre).mp hbefore
    by_cases hnil : more = []
    · rwa [hnil, append_nil]
    · refine hover more hmore hnil fun heq => ?_
      rw [heq] at hlength
      exact absurd hlength (lt_irrefl _)

variable (hsizes : ∀ d ∈ childInstances storage path, 0 ≤ d.2.contentSize)
include hsizes

theorem pagesFrom_page_iff (hrest : byName storage path = pre ++ rest) (haligned : Aligned pre rest)
    (hfound : found <+: rest) (hlength : found.length ≤ 4)
    (hstop : found.length < 4 → found ≠ rest →
      byteSize storage path - sizesOf (pre ++ found) + size ≤ maxByteSize) :
    PagesFrom storage path size maxByteSize pre ↔
      PagesFrom storage path size maxByteSize (pre ++ found) := by
  have hfull : ∀ before d e after, byName storage path = before ++ d :: e :: after →
      maxByteSize < byteSize storage path - sizesOf (before ++ [d]) + size →
      (pre ++ found).length ≤ before.length + 1 → found.length = 4 := by
    intro before d e after hsplit hlt hle
    refine Nat.le_antisymm hlength (Nat.not_lt.mp fun hshort => ?_)
    have hlisted : before ++ [d] <+: byName storage path := ⟨e :: after, by simp [hsplit]⟩
    have hbefore : pre ++ found <+: before ++ [d] := by
      refine prefix_of_prefix_length_le ?_ hlisted (by simpa using hle)
      rw [hrest]
      exact (prefix_append_right_inj pre).mpr hfound
    have hmono := sizesOf_le hsizes hbefore hlisted
    have hend := hstop hshort fun heq => by
      have htotal := congrArg length (hrest.symm.trans hsplit)
      rw [heq] at hle
      simp only [length_append, length_cons] at htotal hle
      omega
    omega
  constructor
  · intro h before d e after hsplit hlt hle hmod
    have hfour := hfull before d e after hsplit hlt hle
    rw [length_append, hfour] at hle hmod
    exact h before d e after hsplit hlt (by omega) (by omega)
  · intro h before d e after hsplit hlt hle hmod
    rcases hle.eq_or_lt with heq | hgt
    · have hpre : pre = before ++ [d] := by
        refine IsPrefix.eq_of_length (prefix_of_prefix_length_le ⟨rest, hrest.symm⟩
          ⟨e :: after, by simp [hsplit]⟩ (by simp [heq])) (by simp [heq])
      have hafter : rest = e :: after := by
        rw [hrest, hpre, append_assoc] at hsplit
        simpa using hsplit
      refine (haligned d (by simp [hpre])).2 e ?_
      rw [hafter]
      exact mem_cons_self
    · have hle' : (pre ++ found).length ≤ before.length + 1 := by
        rw [length_append]
        omega
      have hfour := hfull before d e after hsplit hlt hle'
      refine h before d e after hsplit hlt hle' ?_
      rw [length_append, hfour] at hle' ⊢
      omega

variable (hsize : InLong size) (hfits : size ≤ maxByteSize)
include hsize hfits

/-- **The loop on the size**, under the condition. -/
theorem trimBytes_deletes {fuel : ℕ} (h : At storage path size pre t)
    (hpages : PagesFrom storage path size maxByteSize pre)
    (hordered : OrderedFrom storage path size maxByteSize pre)
    (hfuel : (byName storage path).length < pre.length + fuel) :
    ∃ t' found, trimBytes storage path maxByteSize fuel t = some t' ∧
      Deletes storage path size maxByteSize pre found t' := by
  induction fuel generalizing pre t with
  | zero => exact absurd h.isPrefix.length_le (Nat.not_le.mpr hfuel)
  | succ fuel ih =>
    by_cases hle : t.currentByteSize ≤ maxByteSize
    · exact ⟨t, pre, trimBytes_of_le hle, h.deletes_self hle⟩
    · rw [not_le] at hle
      have hpre := hle
      rw [h.current] at hpre
      obtain ⟨e, rest, hrest⟩ := exists_rest hfits h hle
      have haligned := aligned_of_ordered hpages hordered hrest hpre
      obtain ⟨page, hne, hpage, hlength, hat, hover, hstop⟩ :=
        @At.page storage path size maxByteSize t pre _ hsizes hsize h hrest (cons_ne_nil _ _)
          haligned
      have hpos := length_pos_iff.mpr hne
      obtain ⟨t', found, ht', hdeletes⟩ := ih hat
        ((pagesFrom_page_iff hsizes hrest haligned hpage hlength hstop).mp hpages)
        (hordered.page hrest hpage hover hpre) (by rw [length_append]; omega)
      refine ⟨t', found, ?_, hdeletes.of_page hover hpre⟩
      rw [trimBytes_of_lt hle (by rw [h.search_eq hrest haligned]; simp), ht']

end Loop

section Given

variable {size maxByteSize : ℤ} {fuel : ℕ} {pre found rest : List (String × ContentInstance)}

theorem trimBytes_succ (h : trimBytes storage path maxByteSize fuel t = some t') :
    trimBytes storage path maxByteSize (fuel + 1) t = some t' := by
  induction fuel generalizing t with
  | zero =>
    unfold trimBytes at h
    split at h
    · next hle => exact (trimBytes_of_le hle).trans h
    · cases h
  | succ fuel ih =>
    by_cases hle : t.currentByteSize ≤ maxByteSize
    · rw [trimBytes_of_le hle] at h
      exact (trimBytes_of_le hle).trans h
    · have hpage : search storage path (isAfter t.lastCiCreationTimeToDelete) 4 ≠ [] := by
        intro hnil
        rw [trimBytes, if_neg hle] at h
        simp only [hnil] at h
        cases h
      rw [trimBytes_of_lt (not_le.mp hle) hpage] at h ⊢
      exact ih h

/-- **A loop without an end within the fuel of one page for each instance has no end.** -/
theorem trimBytes_eq_none (hfuel : (remaining storage path t).length < fuel)
    (h : trimBytes storage path maxByteSize fuel t = none) (n : ℕ) :
    trimBytes storage path maxByteSize n t = none := by
  have hmore : ∀ k, trimBytes storage path maxByteSize (fuel + k) t = none := by
    intro k
    induction k with
    | zero => exact h
    | succ k ih => rw [← Nat.add_assoc, trimBytes_fuel (by omega), ih]
  cases hn : trimBytes storage path maxByteSize n t with
  | none => rfl
  | some t' =>
    have hless : ∀ k, trimBytes storage path maxByteSize (n + k) t = some t' := by
      intro k
      induction k with
      | zero => exact hn
      | succ k ih => exact trimBytes_succ ih
    have hboth := hless fuel
    rw [Nat.add_comm, hmore n] at hboth
    cases hboth

theorem trimBytes_isPrefix (ht : trimBytes storage path maxByteSize fuel t = some t') :
    t.deleted <+: t'.deleted := by
  refine (trimBytes_rule (I := fun u => t.deleted <+: u.deleted) (fun u hne h => ?_)
    prefix_rfl ht).1
  obtain ⟨found, -, -, -, hdeleted, -⟩ := trimPage_isPrefix maxByteSize u hne
  rw [hdeleted]
  exact h.trans (prefix_append _ _)

section

variable (hpre : ∀ d ∈ pre, d ∈ childInstances storage path)
  (hfound : ∀ d ∈ found, d ∈ childInstances storage path)

include hpre hfound

theorem isPrefix_of_names (h : pre.map fst <+: found.map fst) : pre <+: found := by
  induction pre generalizing found with
  | nil => exact nil_prefix
  | cons d pre ih =>
    cases found with
    | nil => exact absurd (prefix_nil.mp h) (cons_ne_nil _ _)
    | cons e found =>
      obtain ⟨hd, hpre⟩ := forall_mem_cons.mp hpre
      obtain ⟨he, hfound⟩ := forall_mem_cons.mp hfound
      obtain ⟨hname, h⟩ := cons_prefix_cons.mp h
      exact cons_prefix_cons.mpr ⟨eq_of_name_eq hd he hname, ih hpre hfound h⟩

theorem eq_of_names (h : pre.map fst = found.map fst) : pre = found := by
  refine (isPrefix_of_names hpre hfound (h ▸ prefix_rfl)).eq_of_length ?_
  simpa using congrArg length h

end

theorem At.stored (h : At storage path size pre t) : ∀ d ∈ pre, d ∈ childInstances storage path :=
  fun _ hd => (byName_perm storage path).mem_iff.mp (h.isPrefix.subset hd)

theorem At.aligned (h : At storage path size pre t) (hrest : byName storage path = pre ++ rest)
    {x : String × ContentInstance} (hx : isAfter t.lastCiCreationTimeToDelete x.2 = true)
    (holdest : OldestFirst timeOf (childInstances storage path) (pre ++ x :: found)) :
    Aligned pre rest := by
  intro last hlast
  have hafter : timeOf last < timeOf x := by
    rw [h.last, Option.mem_def.mp hlast] at hx
    exact of_decide_eq_true hx
  have hperm : (pre ++ rest).Perm (childInstances storage path) := hrest ▸ byName_perm storage path
  refine ⟨fun d hd => ?_, fun e he => hafter.trans_le (holdest.le hperm e he)⟩
  obtain ⟨before, rfl⟩ := getLast?_eq_some_iff.mp hlast
  have hsorted := (pairwise_append.mp (pairwise_append.mp holdest.pairwise).1).2.2
  rcases mem_append.mp hd with hd | hd
  · exact hsorted d hd last mem_cons_self
  · rw [mem_singleton.mp hd]

variable (hsizes : ∀ d ∈ childInstances storage path, 0 ≤ d.2.contentSize)
include hsizes

theorem pagesFrom_of_le (hpre : pre <+: byName storage path)
    (hle : byteSize storage path - sizesOf pre + size ≤ maxByteSize) :
    PagesFrom storage path size maxByteSize pre := by
  intro before d e rest hsplit hlt hlength _
  have hbefore : before ++ [d] <+: byName storage path := ⟨e :: rest, by simp [hsplit]⟩
  have hmono := sizesOf_le hsizes
    (prefix_of_prefix_length_le hpre hbefore (by simpa using hlength)) hbefore
  omega

variable (hsize : InLong size) (hfits : size ≤ maxByteSize)
include hsize hfits

/-- **The loop on the size**, when it ends and deletes the oldest instances. -/
theorem deletes_of_trimBytes (h : At storage path size pre t)
    (ht : trimBytes storage path maxByteSize fuel t = some t')
    (hdeleted : t'.deleted = found.map fst)
    (holdest : OldestFirst timeOf (childInstances storage path) found) :
    Deletes storage path size maxByteSize pre found t' ∧
      PagesFrom storage path size maxByteSize pre := by
  have hstored : ∀ d ∈ found, d ∈ childInstances storage path := fun d hd => holdest.mem hd
  have hend : ∀ {pre t fuel}, At storage path size pre t →
      trimBytes storage path maxByteSize fuel t = some t' → t.currentByteSize ≤ maxByteSize →
      Deletes storage path size maxByteSize pre found t' ∧
        PagesFrom storage path size maxByteSize pre := by
    intro pre t fuel h ht hle
    rw [trimBytes_of_le hle] at ht
    obtain rfl := Option.some.inj ht
    have hnames : pre.map fst = found.map fst := h.deleted.symm.trans hdeleted
    obtain rfl := eq_of_names h.stored hstored hnames
    exact ⟨h.deletes_self hle, pagesFrom_of_le hsizes h.isPrefix (h.current ▸ hle)⟩
  induction fuel generalizing pre t with
  | zero =>
    by_cases hle : t.currentByteSize ≤ maxByteSize
    · exact hend h ht hle
    · rw [trimBytes, if_neg hle] at ht
      cases ht
  | succ fuel ih =>
    by_cases hle : t.currentByteSize ≤ maxByteSize
    · exact hend h ht hle
    · rw [not_le] at hle
      have hpre := hle
      rw [h.current] at hpre
      obtain ⟨e, rest, hrest⟩ := exists_rest hfits h hle
      have hpage : search storage path (isAfter t.lastCiCreationTimeToDelete) 4 ≠ [] := by
        intro hnil
        rw [trimBytes, if_neg (not_le.mpr hle)] at ht
        simp only [hnil] at ht
        cases ht
      rw [trimBytes_of_lt hle hpage] at ht
      obtain ⟨page, last, hbefore, hlast, hpageDeleted, -⟩ := trimPage_isPrefix maxByteSize t hpage
      cases page with
      | nil => cases hlast
      | cons x more =>
        obtain ⟨hx, hafter⟩ := mem_search (hbefore.subset mem_cons_self)
        have hpageStored : ∀ d ∈ pre ++ x :: more, d ∈ childInstances storage path := by
          intro d hd
          rcases mem_append.mp hd with hd | hd
          · exact h.stored d hd
          · exact mem_childInstances.mpr (mem_search (hbefore.subset hd)).1
        have hfound : pre ++ x :: more <+: found := by
          refine isPrefix_of_names hpageStored hstored ?_
          rw [map_append, ← h.deleted, ← hpageDeleted, ← hdeleted]
          exact trimBytes_isPrefix ht
        obtain ⟨after, rfl⟩ := hfound
        rw [append_assoc, cons_append] at holdest
        have haligned : Aligned pre (e :: rest) := h.aligned hrest hafter holdest
        obtain ⟨page, -, hpage, hlength, hat, hover, hstop⟩ :=
          @At.page storage path size maxByteSize t pre _ hsizes hsize h hrest
            (cons_ne_nil _ _) haligned
        obtain ⟨hdeletes, hpages⟩ := ih hat ht
        exact ⟨hdeletes.of_page hover hpre,
          (pagesFrom_page_iff hsizes hrest haligned hpage hlength hstop).mpr hpages⟩

end Given

section Both

variable {nb size : ℤ} {pre found rest : List (String × ContentInstance)}

theorem not_sizeFits (hmax : 0 < c.maxByteSize.getD (-1)) :
    ¬ SizeFits storage path c size pre ↔
      c.maxByteSize.getD (-1) < byteSize storage path - sizesOf pre + size := by
  unfold SizeFits
  rw [Classical.not_imp, and_iff_right hmax, not_le]

theorem NbFits.mono (h : NbFits storage path c nb pre) (hlength : pre.length ≤ found.length) :
    NbFits storage path c nb found := by
  intro hmax
  have := h hmax
  omega

theorem limited_le (limit : ℤ) (count : ℕ) : limited limit count ≤ count := by
  unfold limited
  split
  · exact Nat.min_le_right _ _
  · exact le_rfl

theorem firstPage_le (storage : Storage) (path : Path) (c : Container) (nb : ℤ) :
    firstPage storage path c nb ≤ (byName storage path).length := by
  rw [length_byName]
  unfold firstPage
  split
  · exact limited_le _ _
  · exact Nat.zero_le _

/-- The instances that the limit on the number deletes. -/
def firstDeleted (storage : Storage) (path : Path) (c : Container) (nb : ℤ) :
    List (String × ContentInstance) :=
  (byName storage path).take (firstPage storage path c nb)

theorem length_firstDeleted : (firstDeleted storage path c nb).length = firstPage storage path c nb :=
  length_take_of_le (firstPage_le storage path c nb)

/-- The size limit ends the deletions at `found`, after those for the limit on the number. -/
structure Stops (storage : Storage) (path : Path) (c : Container) (nb size : ℤ)
    (found : List (String × ContentInstance)) : Prop where
  isPrefix : found <+: byName storage path
  first : firstDeleted storage path c nb <+: found
  fits : SizeFits storage path c size found
  not_fits : ∀ mid, firstDeleted storage path c nb <+: mid → mid <+: found → mid ≠ found →
    ¬ SizeFits storage path c size mid

theorem Stops.first_le (h : Stops storage path c nb size found) :
    firstPage storage path c nb ≤ found.length :=
  length_firstDeleted.symm.trans_le h.first.length_le

theorem firstDeleted_isPrefix (hpre : pre <+: byName storage path)
    (hle : firstPage storage path c nb ≤ pre.length) : firstDeleted storage path c nb <+: pre :=
  prefix_of_prefix_length_le (List.take_prefix _ _) hpre (length_firstDeleted.trans_le hle)

theorem Stops.trimsOldest (h : Stops storage path c nb size found)
    (hcondition : TrimCondition storage path c nb size) :
    TrimsOldest storage path c nb size (found.map fst) := by
  have hminimal : ∀ pre, pre <+: found → pre ≠ found →
      ¬ FitsWithout storage path c nb size pre := by
    intro pre hpre hne
    by_cases hlt : pre.length < firstPage storage path c nb
    · exact hcondition.few pre (hpre.trans h.isPrefix) hlt
    · exact fun hfits => h.not_fits pre
        (firstDeleted_isPrefix (hpre.trans h.isPrefix) (not_lt.mp hlt)) hpre hne hfits.2
  have hnb : NbFits storage path c nb found := hcondition.enough found h.isPrefix h.first_le h.fits
  have hstored : ∀ d ∈ found, d ∈ childInstances storage path := fun d hd =>
    (byName_perm storage path).mem_iff.mp (h.isPrefix.subset hd)
  obtain ⟨rest, hrest⟩ := h.isPrefix
  have horder : ∀ pre d more, found = pre ++ d :: more →
      ∀ e ∈ more ++ rest, timeOf d ≤ timeOf e := by
    intro pre d more hsplit
    refine hcondition.order pre d (more ++ rest) ?_ (hminimal pre ⟨d :: more, hsplit.symm⟩ ?_)
    · rw [← hrest, hsplit, append_assoc, cons_append]
    · rw [hsplit]
      exact fun heq => absurd (congrArg length heq) (by simp)
  refine ⟨?_, fun name hname => ?_, found, rfl, ?_, ⟨hnb, h.fits⟩, hminimal⟩
  · have hnodup : ((byName storage path).map fst).Nodup :=
      ((byName_perm storage path).map fst).nodup_iff.mpr (nodup_childInstances storage path)
    exact hnodup.sublist ((IsPrefix.sublist ⟨rest, hrest⟩).map fst)
  · obtain ⟨d, hd, rfl⟩ := mem_map.mp hname
    exact ⟨d.2, mem_childInstances.mp (hstored d hd)⟩
  · have hperm : (found ++ rest).Perm (childInstances storage path) :=
      hrest ▸ byName_perm storage path
    refine oldestFirst_of_pairwise ?_ ?_ hperm
    · exact pairwise_of_splits fun pre d more hsplit e he =>
        horder pre d more hsplit e (mem_append_left _ he)
    · intro d hd e he
      obtain ⟨pre, more, hsplit⟩ := append_of_mem hd
      exact horder pre d more hsplit e (mem_append_right _ he)

variable (hsizes : ∀ d ∈ childInstances storage path, 0 ≤ d.2.contentSize)
include hsizes

theorem Stops.condition (h : Stops storage path c nb size found)
    (holdest : OldestFirst timeOf (childInstances storage path) found)
    (hfits : FitsWithout storage path c nb size found)
    (hminimal : ∀ pre, pre <+: found → pre ≠ found → ¬ FitsWithout storage path c nb size pre)
    (hlong : 0 < c.maxByteSize.getD (-1) →
      byteSize storage path - sizesOf (firstDeleted storage path c nb) + size < 2 ^ 63)
    (hpages : 0 < c.maxByteSize.getD (-1) →
      PagesFrom storage path size (c.maxByteSize.getD (-1)) (firstDeleted storage path c nb)) :
    TrimCondition storage path c nb size := by
  have henough : ∀ pre, pre <+: byName storage path → firstPage storage path c nb ≤ pre.length →
      SizeFits storage path c size pre → NbFits storage path c nb pre := by
    intro pre hpre hle hsize
    refine hfits.1.mono (not_lt.mp fun hlt => ?_)
    refine h.not_fits pre (firstDeleted_isPrefix hpre hle)
      (prefix_of_prefix_length_le hpre h.isPrefix hlt.le) (fun heq => ?_) hsize
    exact absurd (congrArg length heq) hlt.ne
  refine ⟨fun pre hpre hlt => ?_, henough, hlong, fun pre d rest hsplit hnot => ?_,
    fun pre d e rest hsplit hnot hle hmod => ?_⟩
  · have hlt := hlt.trans_le h.first_le
    refine hminimal pre (prefix_of_prefix_length_le hpre h.isPrefix hlt.le) fun heq => ?_
    exact absurd (congrArg length heq) hlt.ne
  · have hpre : pre <+: byName storage path := ⟨d :: rest, hsplit.symm⟩
    have hlt : pre.length < found.length := by
      refine not_le.mp fun hle => hnot (hfits.mono hsizes ?_ hpre)
      exact prefix_of_prefix_length_le h.isPrefix hpre hle
    have hsplit' : pre ++ [d] <+: found :=
      prefix_of_prefix_length_le ⟨rest, by simp [hsplit]⟩ h.isPrefix
        (by rw [length_append]; exact hlt)
    obtain ⟨more, rfl⟩ := hsplit'
    rw [append_assoc, singleton_append] at holdest
    have hle := holdest.le (hsplit ▸ byName_perm storage path)
    exact fun e he => hle e (mem_cons_of_mem d he)
  · have hpre : pre ++ [d] <+: byName storage path := ⟨e :: rest, by simp [hsplit]⟩
    have hsize : ¬ SizeFits storage path c size (pre ++ [d]) := fun hsize =>
      hnot ⟨henough _ hpre (by simpa using hle) hsize, hsize⟩
    have hmax : 0 < c.maxByteSize.getD (-1) := (Classical.not_imp.mp hsize).1
    refine hpages hmax pre d e rest hsplit ((not_sizeFits hmax).mp hsize) ?_ ?_
    · rwa [length_firstDeleted]
    · rwa [length_firstDeleted]

end Both

section Whole

variable {r : ContentInstances} {nb size : ℤ} {t' : Trimming} {last : Option (ℤ × String)} {now : ℤ}

/-- The variables before the trimmings. -/
def trimStart (storage : Storage) (path : Path) (nb size : ℤ) : Trimming where
  currentNbOfInstances := toLong (nbInstances storage path + nb)
  currentByteSize := toLong (byteSize storage path + size)

theorem trimNb_spec (storage : Storage) (path : Path) (c : Container) (nb size : ℤ) :
    let t := trimNb storage path (c.maxNrOfInstances.getD (-1)) (trimStart storage path nb size)
    t.deleted = (firstDeleted storage path c nb).map fst ∧
      t.currentByteSize =
        toLong (byteSize storage path - sizesOf (firstDeleted storage path c nb) + size) ∧
      t.lastCiCreationTimeToDelete = (firstDeleted storage path c nb).getLast?.map timeOf := by
  unfold trimNb trimStart firstDeleted firstPage
  dsimp only
  split
  · rw [search_eq, ← byName, length_byName]
    refine ⟨nil_append _, ?_, rfl⟩
    rw [foldl_toLong_sub fun d : String × ContentInstance => d.2.contentSize, add_sub_right_comm]
    rfl
  · rw [take_zero]
    refine ⟨rfl, ?_, rfl⟩
    rw [sizesOf, map_nil, sum_nil, sub_zero]

theorem toLong_neg {x : ℤ} (hlow : 2 ^ 63 ≤ x) (hhigh : x < 2 ^ 64) : toLong x < 0 := by
  unfold toLong
  rw [Int.bmod_def, Int.emod_eq_of_lt (by omega) (by omega), if_neg (by omega)]
  omega

theorem trim_iff (hr : Counted storage path r) (hsize : InLong size)
    (hlimit : InLong (c.maxByteSize.getD (-1))) (hadmitted : refusal c last nb size now = none) :
    (∃ t, trim storage path c (trimStart storage path nb size) = some t ∧
        TrimsOldest storage path c nb size t.deleted) ↔
      TrimCondition storage path c nb size := by
  obtain ⟨hdeleted, hcurrent, hlast⟩ := trimNb_spec storage path c nb size
  unfold trim
  generalize trimNb storage path (c.maxNrOfInstances.getD (-1)) (trimStart storage path nb size) = t
    at hdeleted hcurrent hlast
  have hfirst : firstDeleted storage path c nb <+: byName storage path := take_prefix _ _
  have hstored : ∀ d ∈ firstDeleted storage path c nb, d ∈ childInstances storage path :=
    fun d hd => (byName_perm storage path).mem_iff.mp (hfirst.subset hd)
  by_cases hmax : 0 < c.maxByteSize.getD (-1)
  · rw [if_pos hmax]
    have hfits := (refusal_eq_none hadmitted).2 hmax
    have hat : byteSize storage path - sizesOf (firstDeleted storage path c nb) + size < 2 ^ 63 →
        At storage path size (firstDeleted storage path c nb) t := by
      intro hlt
      have hle := sizesOf_le_byteSize hr.sizes hfirst
      have hlow := hsize.1
      exact ⟨hfirst, hdeleted, hcurrent.trans (toLong_of_inLong ⟨by omega, hlt⟩), hlast, hlt⟩
    constructor
    · rintro ⟨t', ht', -, -, found, hnames, holdest, hfound, hminimal⟩
      have hlong : byteSize storage path - sizesOf (firstDeleted storage path c nb) + size <
          2 ^ 63 := by
        by_contra hge
        have hnonneg := sizesOf_nonneg hr.sizes hstored
        have hbound := hr.bound
        have hhigh := hsize.2
        have hneg : t.currentByteSize < 0 := hcurrent ▸ toLong_neg (by omega) (by omega)
        rw [trimBytes_of_le (by omega)] at ht'
        obtain rfl := Option.some.inj ht'
        obtain rfl := eq_of_names hstored (fun d hd => holdest.mem hd) (hdeleted.symm.trans hnames)
        have hle := hfound.2 hmax
        have hlimit := hlimit.2
        omega
      obtain ⟨hdeletes, hpages⟩ :=
        deletes_of_trimBytes hr.sizes hsize hfits (hat hlong) ht' hnames holdest
      refine Stops.condition hr.sizes ⟨hdeletes.at_found.isPrefix, hdeletes.isPrefix, hfound.2, ?_⟩
        holdest hfound hminimal (fun _ => hlong) fun _ => hpages
      exact fun mid hfirst' hmid hne => (not_sizeFits hmax).mpr (hdeletes.lt_size mid hfirst' hmid hne)
    · intro hcondition
      have hat := hat (hcondition.long hmax)
      have hpages : PagesFrom storage path size (c.maxByteSize.getD (-1))
          (firstDeleted storage path c nb) := by
        intro before d e rest hsplit hlt hle hmod
        rw [length_firstDeleted] at hle hmod
        exact hcondition.pages before d e rest hsplit
          (fun hfits => (not_sizeFits hmax).mpr hlt hfits.2) hle hmod
      have hordered : OrderedFrom storage path size (c.maxByteSize.getD (-1))
          (firstDeleted storage path c nb) := by
        intro before d rest hsplit hor
        refine hcondition.order before d rest hsplit ?_
        rcases hor with hlt | hlt
        · exact fun hfits => (not_sizeFits hmax).mpr hlt hfits.2
        · rw [length_firstDeleted] at hlt
          exact hcondition.few before ⟨d :: rest, hsplit.symm⟩ hlt
      have hfuel : (byName storage path).length <
          (firstDeleted storage path c nb).length + ((childInstances storage path).length + 1) := by
        rw [length_byName]
        omega
      obtain ⟨t', found, ht', hdeletes⟩ :=
        trimBytes_deletes hr.sizes hsize hfits hat hpages hordered hfuel
      refine ⟨t', ht', hdeletes.at_found.deleted ▸ Stops.trimsOldest
        ⟨hdeletes.at_found.isPrefix, hdeletes.isPrefix, fun _ => hdeletes.size_le, ?_⟩ hcondition⟩
      exact fun mid hfirst' hmid hne => (not_sizeFits hmax).mpr (hdeletes.lt_size mid hfirst' hmid hne)
  · rw [if_neg hmax]
    have hstops : Stops storage path c nb size (firstDeleted storage path c nb) :=
      ⟨hfirst, prefix_rfl, fun h => absurd h hmax, fun mid hmid hmid' hne =>
        absurd (hmid'.eq_of_length_le hmid.length_le) hne⟩
    constructor
    · rintro ⟨t', ht', -, -, found, hnames, holdest, hfound, hminimal⟩
      obtain rfl := Option.some.inj ht'
      obtain rfl := eq_of_names hstored (fun d hd => holdest.mem hd) (hdeleted.symm.trans hnames)
      exact hstops.condition hr.sizes holdest hfound hminimal (fun h => absurd h hmax)
        fun h => absurd h hmax
    · intro hcondition
      exact ⟨t, rfl, hdeleted ▸ hstops.trimsOldest hcondition⟩

theorem checkConditions_eq_ok (hr : Counted storage path r)
    (hadmitted : refusal c last nb size now = none) {names : List String} :
    (∃ r' t, checkConditions storage path c r last nb size now = .ok (r', t) ∧
        t.modifications = names.map fun name => .delete (childPath path name)) ↔
      ∃ t, trim storage path c (trimStart storage path nb size) = some t ∧ t.deleted = names := by
  have hstart : trimStart storage path nb size =
      { currentNbOfInstances := toLong (r.currentNrOfInstances + nb)
        currentByteSize := toLong (r.currentByteSize + size) } := by
    rw [hr.nb_eq, hr.size_eq]
    rfl
  unfold checkConditions
  rw [hadmitted, ← hstart]
  cases trim storage path c (trimStart storage path nb size) with
  | none => simp
  | some trimming =>
    have hinj : Function.Injective fun name => Modification.delete (childPath path name) :=
      fun name name' h => childPath_inj (by injection h)
    constructor
    · rintro ⟨r', t, heq, hmodifications⟩
      cases heq
      exact ⟨trimming, rfl, hinj.list_map hmodifications⟩
    · rintro ⟨t, ht, rfl⟩
      cases ht
      exact ⟨_, _, rfl, rfl⟩

/-- **The limits trim the oldest instances, no more than they ask for, exactly when the names and
the creation times agree as far as instances have to go.** -/
theorem trimsOldest_of_condition (storage : Storage) (path : Path) (c : Container)
    (r : ContentInstances) (last : Option (ℤ × String)) (nb size now : ℤ)
    (hr : Counted storage path r) (hsize : InLong size) (hlimit : InLong (c.maxByteSize.getD (-1)))
    (hadmitted : refusal c last nb size now = none) :
    (∃ r' t names, checkConditions storage path c r last nb size now = .ok (r', t) ∧
        t.modifications = names.map (fun name => .delete (childPath path name)) ∧
        TrimsOldest storage path c nb size names) ↔
      TrimCondition storage path c nb size := by
  rw [← trim_iff hr hsize hlimit hadmitted]
  constructor
  · rintro ⟨r', t, names, hcheck, hmodifications, htrims⟩
    obtain ⟨trimming, htrim, rfl⟩ :=
      (checkConditions_eq_ok hr hadmitted).mp ⟨r', t, hcheck, hmodifications⟩
    exact ⟨trimming, htrim, htrims⟩
  · rintro ⟨trimming, htrim, htrims⟩
    obtain ⟨r', t, hcheck, hmodifications⟩ :=
      (checkConditions_eq_ok hr hadmitted).mpr ⟨trimming, htrim, rfl⟩
    exact ⟨r', t, trimming.deleted, hcheck, hmodifications, htrims⟩

/-- Instances of ten bytes each, in a container of at most fifty bytes. -/
def tens (cs : List (String × ℤ)) : Storage :=
  cs.foldl (fun s d => s.insert ["container", "contentInstances", d.1]
      (.contentInstance ⟨d.1, d.2, 10⟩))
    ((AList.singleton ["container"] (.container ⟨none, some 50, none⟩)).insert
      ["container", "contentInstances"] (.contentInstances ⟨cs.length, 10 * cs.length, none⟩))

/-- Each instance is a second after the one before. -/
def apart : Storage := tens [("a", 0), ("b", 1000), ("c", 2000), ("d", 3000), ("e", 4000)]

/-- The instances are all of one time. -/
def tied : Storage := tens [("a", 0), ("b", 0), ("c", 0), ("d", 0), ("e", 0)]

/-- Four of the five instances make room for forty bytes. -/
theorem trimsOldest_apart :
    ∃ r' t names, checkConditions apart ["container", "contentInstances"] ⟨none, some 50, none⟩
        ⟨5, 50, none⟩ (some (9000, "f")) 1 40 9000 = .ok (r', t) ∧
      t.modifications = names.map (fun name =>
        .delete (childPath ["container", "contentInstances"] name)) ∧
      TrimsOldest apart ["container", "contentInstances"] ⟨none, some 50, none⟩ 1 40 names := by
  refine (trimsOldest_of_condition apart ["container", "contentInstances"] ⟨none, some 50, none⟩
    ⟨5, 50, none⟩ (some (9000, "f")) 1 40 9000
    ⟨by decide +kernel, by decide +kernel, by decide +kernel, by decide +kernel⟩
    ⟨by decide, by decide⟩ ⟨by decide, by decide⟩ (by decide +kernel)).mpr ?_
  have hsorted : (byName apart ["container", "contentInstances"]).Pairwise
      fun d e => timeOf d < timeOf e := by decide +kernel
  have hafter : ∀ pre d rest, byName apart ["container", "contentInstances"] = pre ++ d :: rest →
      ∀ e ∈ rest, timeOf d < timeOf e := by
    intro pre d rest hsplit e he
    rw [hsplit] at hsorted
    exact rel_of_pairwise_cons (pairwise_append.mp hsorted).2.1 he
  refine ⟨fun pre _ hlt => ?_, fun _ _ _ _ hmax => absurd hmax (by decide),
    fun _ => by decide +kernel, fun pre d rest hsplit _ e he => (hafter pre d rest hsplit e he).le,
    fun pre d e rest hsplit _ _ _ => hafter pre d (e :: rest) hsplit e mem_cons_self⟩
  exact absurd hlt (Nat.not_lt_zero _)

/-- After the page that deletes four of five instances of one time, the loop finds no other one and
never ends. -/
theorem tied_endless :
    AccountInv ["container", "contentInstances"] ⟨none, some 50, none⟩ tied ∧
      refusal ⟨none, some 50, none⟩ (some (9000, "f")) 1 45 9000 = none ∧
      (∀ fuel, trimBytes tied ["container", "contentInstances"] 50 fuel
        (trimStart tied ["container", "contentInstances"] 1 45) = none) ∧
      ¬ ∃ r' t names, checkConditions tied ["container", "contentInstances"]
          ⟨none, some 50, none⟩ ⟨5, 50, none⟩ (some (9000, "f")) 1 45 9000 = .ok (r', t) ∧
        t.modifications = names.map (fun name =>
          .delete (childPath ["container", "contentInstances"] name)) ∧
        TrimsOldest tied ["container", "contentInstances"] ⟨none, some 50, none⟩ 1 45 names := by
  have hsizes : ∀ d ∈ childInstances tied ["container", "contentInstances"],
      0 ≤ d.2.contentSize := by decide +kernel
  refine ⟨⟨⟨⟨5, 50, none⟩, by decide +kernel, by decide +kernel, by decide +kernel⟩,
    by decide +kernel, fun id ci h => hsizes (id, ci) (mem_childInstances.mpr h),
    by decide +kernel, by decide, by decide +kernel⟩, by decide +kernel, ?_, ?_⟩
  · have hsix : trimBytes tied ["container", "contentInstances"] 50 6
        (trimStart tied ["container", "contentInstances"] 1 45) = none := by decide +kernel
    exact trimBytes_eq_none (by decide +kernel) hsix
  · rintro ⟨r', t, names, hcheck, -⟩
    have hendless : checkConditions tied ["container", "contentInstances"] ⟨none, some 50, none⟩
        ⟨5, 50, none⟩ (some (9000, "f")) 1 45 9000 = .error .endless := by decide +kernel
    rw [hendless] at hcheck
    cases hcheck

end Whole

end Ong.Scl
