import Mathlib.Data.String.Basic
import Ong.Lib.BinarySearch

/-!
# The tests of a filter

A resource is tested against the criteria of a filter that are set, as far as it has the attribute a
criterion is about.  The strings are of any linear order, which the arrays of a filter are searched
with; the parsing of times and of numbers is taken from outside.

The test of the search strings looks for an index behind the end of its loop.

## Main results

* `filterMatches_iff`: the tests say that the criteria hold exactly when the search strings do not
  decide
-/

namespace Ong.Scl.FilterArrays

open BinarySearch

variable {S : Type} [LinearOrder S]

/-- The criteria with their arrays; a date is its time. -/
structure FilterCriteria (S : Type) where
  ifModifiedSince : Option Int
  ifUnmodifiedSince : Option Int
  ifNoneMatch : Option (List S)
  searchString : Option (List S)
  createdAfter : Option Int
  createdBefore : Option Int
  sizeFrom : Option Int
  sizeUntil : Option Int
  contentType : Option (List S)
  metaDataOnly : Option Bool

/-- The attributes of a resource, as far as it has them. -/
structure Resource (S : Type) where
  lastModifiedTime : Option S
  searchStrings : Option (List S)
  creationTime : Option S
  contentSize : Option S
  contentTypes : Option (List S)

/-- `FormatUtils.parseDateTime` and `Integer.parseInt`, where none stands for an exception. -/
structure Parsers (S : Type) where
  parseDateTime : S → Option Int
  parseInt : S → Option Int

/-! ## The tests -/

namespace SclResource

variable (p : Parsers S) (resource : Resource S) (filterCriteria : FilterCriteria S)

def filterMatchesOnLastModifiedTime : Bool :=
  match resource.lastModifiedTime with
  | none => true
  | some attrValue =>
    match p.parseDateTime attrValue with
    | none => false
    | some dateValue =>
      if filterCriteria.ifModifiedSince.any fun d => !decide (d < dateValue) then false
      else if filterCriteria.ifUnmodifiedSince.any fun d => !decide (d > dateValue) then false
      else if filterCriteria.ifNoneMatch.any fun a => (binarySearch a attrValue).isSome then false
      else true

/-- `filterMatchesOnSearchStrings`; the index at which the loop ends is at most the length. -/
def filterMatchesOnSearchStrings : Bool :=
  match resource.searchStrings, filterCriteria.searchString with
  | some searchStringsList, some searchString =>
    let i := searchString.findIdx fun s => decide (s ∈ searchStringsList)
    if i = searchString.length + 1 then false else true
  | _, _ => true

def filterMatchesOnCreationTime : Bool :=
  match resource.creationTime with
  | none => true
  | some attrValue =>
    match p.parseDateTime attrValue with
    | none => false
    | some dateValue =>
      if filterCriteria.createdAfter.any fun d => !decide (d < dateValue) then false
      else if filterCriteria.createdBefore.any fun d => !decide (d > dateValue) then false
      else true

/-- `filterMatches`; no criteria let everything pass. -/
def filterMatches (resource : Resource S) : Option (FilterCriteria S) → Bool
  | none => true
  | some filterCriteria =>
    filterMatchesOnLastModifiedTime p resource filterCriteria &&
      filterMatchesOnSearchStrings resource filterCriteria &&
      filterMatchesOnCreationTime p resource filterCriteria

end SclResource

namespace ContentInstance

variable (p : Parsers S) (resource : Resource S) (cift : FilterCriteria S)

def filterMatchesOnContentSize : Bool :=
  match resource.contentSize with
  | none => true
  | some attrValue =>
    match p.parseInt attrValue with
    | none => false
    | some intValue =>
      if cift.sizeFrom.any fun n => decide (n > intValue) then false
      else if cift.sizeUntil.any fun n => decide (n < intValue) then false
      else true

def filterMatchesOnContentType : Bool :=
  match resource.contentTypes, cift.contentType with
  | some contentTypesList, some contentType =>
    let i := contentType.findIdx fun s => decide (s ∈ contentTypesList)
    if i = contentType.length then false else true
  | _, _ => true

/-- `filterMatches` of a content instance, which has no search strings. -/
def filterMatches (resource : Resource S) : Option (FilterCriteria S) → Bool
  | none => true
  | some cift =>
    SclResource.filterMatchesOnLastModifiedTime p resource cift &&
      SclResource.filterMatchesOnCreationTime p resource cift &&
      filterMatchesOnContentSize p resource cift && filterMatchesOnContentType resource cift

end ContentInstance

section Criteria

variable (p : Parsers S) (r : Resource S) (f : FilterCriteria S)

/-- The criteria on the time of the last modification. -/
def LastModifiedHolds : Prop :=
  ∀ t ∈ r.lastModifiedTime, ∀ d ∈ p.parseDateTime t,
    (∀ since ∈ f.ifModifiedSince, since < d) ∧ (∀ since ∈ f.ifUnmodifiedSince, d < since) ∧
      ∀ tags ∈ f.ifNoneMatch, t ∉ tags

/-- One of the strings of the criterion is a search string of the resource. -/
def SearchHolds : Prop :=
  ∀ strings ∈ r.searchStrings, ∀ searched ∈ f.searchString, ∃ s ∈ searched, s ∈ strings

/-- The criteria on the time of the creation. -/
def CreationHolds : Prop :=
  ∀ t ∈ r.creationTime, ∀ d ∈ p.parseDateTime t,
    (∀ after ∈ f.createdAfter, after < d) ∧ ∀ before ∈ f.createdBefore, d < before

/-- The lower bound of the size of the content. -/
def SizeFromHolds : Prop :=
  ∀ t ∈ r.contentSize, ∀ n ∈ f.sizeFrom, ∃ size ∈ p.parseInt t, n ≤ size

/-- The upper bound of the size of the content. -/
def SizeUntilHolds : Prop :=
  ∀ t ∈ r.contentSize, ∀ n ∈ f.sizeUntil, ∃ size ∈ p.parseInt t, size ≤ n

/-- One of the types of the criterion is a type of the content. -/
def TypeHolds : Prop :=
  ∀ types ∈ r.contentTypes, ∀ asked ∈ f.contentType, ∃ s ∈ asked, s ∈ types

/-- The criteria that all resources are tested for. -/
def MeetsBase : Prop := LastModifiedHolds p r f ∧ SearchHolds r f ∧ CreationHolds p r f

/-- The criteria on the content. -/
def MeetsContent : Prop := SizeFromHolds p r f ∧ SizeUntilHolds p r f ∧ TypeHolds r f

/-- All the criteria. -/
def Meets : Prop := MeetsBase p r f ∧ MeetsContent p r f

end Criteria

section Tests

variable {p : Parsers S} {r : Resource S} {f : FilterCriteria S}

theorem filterMatchesOnLastModifiedTime_iff
    (hsorted : ∀ tags ∈ f.ifNoneMatch, tags.Pairwise (· ≤ ·))
    (hparse : ∀ t ∈ r.lastModifiedTime, (p.parseDateTime t).isSome) :
    SclResource.filterMatchesOnLastModifiedTime p r f = true ↔ LastModifiedHolds p r f := by
  unfold SclResource.filterMatchesOnLastModifiedTime LastModifiedHolds
  cases ht : r.lastModifiedTime with
  | none => simp
  | some t =>
    obtain ⟨d, hd⟩ := Option.isSome_iff_exists.mp (hparse t ht)
    have htags : (f.ifNoneMatch.any fun a => (binarySearch a t).isSome) = true ↔
        ∃ tags ∈ f.ifNoneMatch, t ∈ tags := by
      cases hn : f.ifNoneMatch with
      | none => simp
      | some tags => simp [isSome_binarySearch_iff (hsorted tags hn)]
    rcases f.ifModifiedSince with _ | m <;> rcases f.ifUnmodifiedSince with _ | u <;>
      cases hn : f.ifNoneMatch <;> simp_all

theorem filterMatchesOnSearchStrings_eq : SclResource.filterMatchesOnSearchStrings r f = true := by
  unfold SclResource.filterMatchesOnSearchStrings
  split
  · rename_i strings searched _ _
    have hle : searched.findIdx (fun s => decide (s ∈ strings)) ≤ searched.length :=
      List.findIdx_le_length
    exact if_neg (by omega)
  · rfl

omit [LinearOrder S] in
theorem filterMatchesOnCreationTime_iff
    (hparse : ∀ t ∈ r.creationTime, (p.parseDateTime t).isSome) :
    SclResource.filterMatchesOnCreationTime p r f = true ↔ CreationHolds p r f := by
  unfold SclResource.filterMatchesOnCreationTime CreationHolds
  cases ht : r.creationTime with
  | none => simp
  | some t =>
    obtain ⟨d, hd⟩ := Option.isSome_iff_exists.mp (hparse t ht)
    rcases f.createdAfter with _ | a <;> rcases f.createdBefore with _ | b <;> simp [hd]

omit [LinearOrder S] in
theorem filterMatchesOnContentSize_iff :
    ContentInstance.filterMatchesOnContentSize p r f = true ↔
      (SizeFromHolds p r f ∧ SizeUntilHolds p r f) ∧
        ∀ t ∈ r.contentSize, (p.parseInt t).isSome := by
  unfold ContentInstance.filterMatchesOnContentSize SizeFromHolds SizeUntilHolds
  cases r.contentSize with
  | none => simp
  | some t =>
    cases hn : p.parseInt t with
    | none => simp [hn]
    | some n => rcases f.sizeFrom with _ | a <;> rcases f.sizeUntil with _ | b <;> simp [hn]

theorem filterMatchesOnContentType_iff :
    ContentInstance.filterMatchesOnContentType r f = true ↔ TypeHolds r f := by
  unfold ContentInstance.filterMatchesOnContentType TypeHolds
  cases r.contentTypes with
  | none => simp
  | some types =>
    cases f.contentType with
    | none => simp
    | some asked =>
      have hlen : asked.findIdx (fun s => decide (s ∈ types)) = asked.length ↔
          ¬ ∃ s ∈ asked, s ∈ types := by
        simp
      by_cases h : ∃ s ∈ asked, s ∈ types
      · simp [hlen, h]
      · simp [hlen, h]

end Tests

section Main

variable (p : Parsers S) (r : Resource S) (f : FilterCriteria S)

/-- The search strings do not decide: they hold, or a criterion on the times does not. -/
def SearchCondition : Prop := LastModifiedHolds p r f → CreationHolds p r f → SearchHolds r f

/-- For the content: where the other criteria hold, the size of the content is a number exactly when
the criterion on the search strings, which a content instance does not have, holds. -/
def ContentCondition : Prop :=
  LastModifiedHolds p r f → CreationHolds p r f → MeetsContent p r f →
    (SearchHolds r f ↔ ∀ t ∈ r.contentSize, (p.parseInt t).isSome)

/-- **The tests and the criteria.**  The test of a resource says that the criteria hold if and only
if the search strings do not decide; that of a content instance if moreover its size is a number. -/
theorem filterMatches_iff (hsorted : ∀ tags ∈ f.ifNoneMatch, tags.Pairwise (· ≤ ·))
    (hmodified : ∀ t ∈ r.lastModifiedTime, (p.parseDateTime t).isSome)
    (hcreated : ∀ t ∈ r.creationTime, (p.parseDateTime t).isSome) :
    ((SclResource.filterMatches p r (some f) = true ↔ MeetsBase p r f) ↔ SearchCondition p r f) ∧
      ((ContentInstance.filterMatches p r (some f) = true ↔ Meets p r f) ↔ ContentCondition p r f) := by
  have hlast := filterMatchesOnLastModifiedTime_iff hsorted hmodified
  have hcreation := filterMatchesOnCreationTime_iff (f := f) hcreated
  have hscl : SclResource.filterMatches p r (some f) = true ↔
      LastModifiedHolds p r f ∧ CreationHolds p r f := by
    rw [SclResource.filterMatches, filterMatchesOnSearchStrings_eq, Bool.and_true, Bool.and_eq_true,
      hlast, hcreation]
  have hcontent : ContentInstance.filterMatches p r (some f) = true ↔
      LastModifiedHolds p r f ∧ CreationHolds p r f ∧ MeetsContent p r f ∧
        ∀ t ∈ r.contentSize, (p.parseInt t).isSome := by
    rw [ContentInstance.filterMatches, Bool.and_eq_true, Bool.and_eq_true, Bool.and_eq_true, hlast,
      hcreation, filterMatchesOnContentSize_iff, filterMatchesOnContentType_iff, MeetsContent]
    tauto
  rw [hscl, hcontent, SearchCondition, ContentCondition, Meets, MeetsBase]
  constructor <;> tauto

/-- Digits, read as a number. -/
def readDigits (s : String) : Option Int :=
  if s.toList.all Char.isDigit then
    some (s.toList.foldl (fun n c => 10 * n + (c.toNat - 48 : Int)) 0)
  else none

/-- Times and numbers are digits. -/
def digitsOnly : Parsers String := ⟨readDigits, readDigits⟩

/-- A resource with a search string and two times. -/
def labelled : Resource String where
  lastModifiedTime := some "5"
  searchStrings := some ["lamp"]
  creationTime := some "3"
  contentSize := some "7"
  contentTypes := some ["text/plain"]

/-- A filter that asks for a search string, and for nothing else. -/
def askedFor (s : String) : FilterCriteria String where
  ifModifiedSince := none
  ifUnmodifiedSince := none
  ifNoneMatch := some ["1", "2"]
  searchString := some [s]
  createdAfter := none
  createdBefore := none
  sizeFrom := none
  sizeUntil := none
  contentType := none
  metaDataOnly := none

theorem filterMatches_labelled :
    ((SclResource.filterMatches digitsOnly labelled (some (askedFor "lamp")) = true ↔
        MeetsBase digitsOnly labelled (askedFor "lamp")) ↔
      SearchCondition digitsOnly labelled (askedFor "lamp")) ∧
    ((ContentInstance.filterMatches digitsOnly labelled (some (askedFor "lamp")) = true ↔
        Meets digitsOnly labelled (askedFor "lamp")) ↔
      ContentCondition digitsOnly labelled (askedFor "lamp")) := by
  refine filterMatches_iff digitsOnly labelled (askedFor "lamp") ?_ ?_ ?_
  · intro tags htags
    obtain rfl := Option.some.inj htags
    decide +kernel
  · intro t ht
    obtain rfl := Option.some.inj ht
    decide +kernel
  · intro t ht
    obtain rfl := Option.some.inj ht
    decide +kernel

/-- A resource without the search string that a filter asks for passes. -/
theorem other_string_passes :
    ¬ (SclResource.filterMatches digitsOnly labelled (some (askedFor "door")) = true ↔
      MeetsBase digitsOnly labelled (askedFor "door")) := by
  intro h
  have hsearch := (h.mp (by decide +kernel)).2.1
  obtain ⟨s, hs, hmem⟩ := hsearch ["lamp"] rfl ["door"] rfl
  rw [List.mem_singleton.mp hs] at hmem
  exact absurd hmem (by decide +kernel)

end Main

end Ong.Scl.FilterArrays
