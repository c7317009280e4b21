import Mathlib.Data.Finset.Lattice.Basic
import Ong.Lib.Store

/-!
# Filter criteria and their merge

A `FilterCriteria` is a mutable object.  The manager of the subscriptions of a resource merges the
criteria of its subscriptions into one object, in place.

Dates are objects too: `SubsManager.updateIfModifiedSince` compares two of them by reference.  The
string arrays are sorted and only searched, so they are sets here.

## Main results

* `mergeFilterCriteria_eq_iff`: the merge leaves the first criteria as it was exactly when it
  covers the second
-/

namespace Ong.Scl

/-- A `java.util.Date` object. -/
structure Date where
  ref : Nat
  time : Int
  deriving DecidableEq

structure FilterCriteria where
  ifModifiedSince : Option Date := none
  ifUnmodifiedSince : Option Int := none
  ifNoneMatch : Option (Finset String) := none
  attributeAccessor : Option String := none
  searchString : Option (Finset String) := none
  createdAfter : Option Int := none
  createdBefore : Option Int := none
  sizeFrom : Option Int := none
  sizeUntil : Option Int := none
  contentType : Option (Finset String) := none
  metaDataOnly : Option Bool := none
  deriving DecidableEq

namespace FilterCriteria

/-! ## The fields -/

/-- The smaller of two bounds; no bound as soon as one of them is missing. -/
def least : Option Int → Option Int → Option Int
  | some a, some b => if a > b then some b else some a
  | _, _ => none

/-- The larger of two bounds; no bound as soon as one of them is missing. -/
def greatest : Option Int → Option Int → Option Int
  | some a, some b => if a < b then some b else some a
  | _, _ => none

/-- `ifModifiedSince`: the earlier of two dates, the first one on a tie. -/
def earliest : Option Date → Option Date → Option Date
  | some a, some b => if a.time > b.time then some b else some a
  | _, _ => none

/-- The strings that both criteria exclude. -/
def inter : Option (Finset String) → Option (Finset String) → Option (Finset String)
  | some a, some b => some (b ∩ a)
  | _, _ => none

/-- The strings that one of the criteria asks for. -/
def union : Option (Finset String) → Option (Finset String) → Option (Finset String)
  | some a, some b => some (a ∪ b)
  | _, _ => none

/-- `metaDataOnly`: that of the second criteria when the two objects differ. -/
def second : Option Bool → Option Bool → Option Bool
  | some _, some b => some b
  | _, _ => none

end FilterCriteria

open FilterCriteria

/-- The merge of `filterCriteria` into `result`, both not null. -/
def SclResource.mergeFilterCriteria (result filterCriteria : FilterCriteria) : FilterCriteria :=
  { result with
    ifModifiedSince := earliest result.ifModifiedSince filterCriteria.ifModifiedSince
    ifUnmodifiedSince := greatest result.ifUnmodifiedSince filterCriteria.ifUnmodifiedSince
    ifNoneMatch := inter result.ifNoneMatch filterCriteria.ifNoneMatch
    searchString := union result.searchString filterCriteria.searchString
    createdAfter := least result.createdAfter filterCriteria.createdAfter
    createdBefore := greatest result.createdBefore filterCriteria.createdBefore }

/-- The merge for the resources that depend on the filter criteria.  `sizeUntil` is an upper bound,
but the source keeps the smaller one, as it does for `sizeFrom`. -/
def ContentInstances.mergeFilterCriteria (result filterCriteria : FilterCriteria) :
    FilterCriteria :=
  { SclResource.mergeFilterCriteria result filterCriteria with
    sizeFrom := least result.sizeFrom filterCriteria.sizeFrom
    sizeUntil := least result.sizeUntil filterCriteria.sizeUntil
    contentType := union result.contentType filterCriteria.contentType
    metaDataOnly := second result.metaDataOnly filterCriteria.metaDataOnly }

namespace FilterCriteria

/-! ## Coverage -/

/-- No bound, or one that is at most the other. -/
def AtMost : Option Int → Option Int → Prop
  | none, _ => True
  | some a, some b => a ≤ b
  | some _, none => False

/-- No bound, or one that is at least the other. -/
def AtLeast : Option Int → Option Int → Prop
  | none, _ => True
  | some a, some b => b ≤ a
  | some _, none => False

/-- No set, or one that is within the other. -/
def Within : Option (Finset String) → Option (Finset String) → Prop
  | none, _ => True
  | some a, some b => a ⊆ b
  | some _, none => False

/-- No set, or one that includes the other. -/
def Includes : Option (Finset String) → Option (Finset String) → Prop
  | none, _ => True
  | some a, some b => b ⊆ a
  | some _, none => False

/-- No value, or the same one. -/
def Agrees : Option Bool → Option Bool → Prop
  | none, _ => True
  | some a, some b => a = b
  | some _, none => False

/-- Field by field, `r` already is what merging `f` into it makes of it. -/
structure Covers (r f : FilterCriteria) : Prop where
  ifModifiedSince : AtMost (r.ifModifiedSince.map Date.time) (f.ifModifiedSince.map Date.time)
  ifUnmodifiedSince : AtLeast r.ifUnmodifiedSince f.ifUnmodifiedSince
  ifNoneMatch : Within r.ifNoneMatch f.ifNoneMatch
  searchString : Includes r.searchString f.searchString
  createdAfter : AtMost r.createdAfter f.createdAfter
  createdBefore : AtLeast r.createdBefore f.createdBefore
  sizeFrom : AtMost r.sizeFrom f.sizeFrom
  sizeUntil : AtMost r.sizeUntil f.sizeUntil
  contentType : Includes r.contentType f.contentType
  metaDataOnly : Agrees r.metaDataOnly f.metaDataOnly

theorem least_eq_left_iff (a b : Option Int) : least a b = a ↔ AtMost a b := by
  rcases a with - | a <;> rcases b with - | b
  · simp [least, AtMost]
  · simp [least, AtMost]
  · simp [least, AtMost]
  · simp only [least, AtMost]
    split <;> simp <;> omega

theorem greatest_eq_left_iff (a b : Option Int) : greatest a b = a ↔ AtLeast a b := by
  rcases a with - | a <;> rcases b with - | b
  · simp [greatest, AtLeast]
  · simp [greatest, AtLeast]
  · simp [greatest, AtLeast]
  · simp only [greatest, AtLeast]
    split <;> simp <;> omega

theorem inter_eq_left_iff (a b : Option (Finset String)) : inter a b = a ↔ Within a b := by
  rcases a with - | a <;> rcases b with - | b <;> simp [inter, Within]

theorem union_eq_left_iff (a b : Option (Finset String)) : union a b = a ↔ Includes a b := by
  rcases a with - | a <;> rcases b with - | b <;> simp [union, Includes]

theorem second_eq_left_iff (a b : Option Bool) : second a b = a ↔ Agrees a b := by
  rcases a with - | a <;> rcases b with - | b <;> simp [second, Agrees, eq_comm]

theorem earliest_eq_left_iff (a b : Option Date) :
    (earliest a b).map Date.time = a.map Date.time ↔
      AtMost (a.map Date.time) (b.map Date.time) := by
  rcases a with - | a <;> rcases b with - | b
  · simp [earliest, AtMost]
  · simp [earliest, AtMost]
  · simp [earliest, AtMost]
  · simp only [earliest, AtMost, Option.map_some]
    split <;> simp <;> omega

theorem earliest_of_atMost {a b : Option Date} (h : AtMost (a.map Date.time) (b.map Date.time)) :
    earliest a b = a := by
  rcases a with - | a <;> rcases b with - | b
  · rfl
  · rfl
  · exact h.elim
  · exact if_neg (Int.not_lt.mpr h)

/-- The contents of an object: a date counts by its time. -/
def content (c : FilterCriteria) : FilterCriteria :=
  { c with ifModifiedSince := c.ifModifiedSince.map fun d => { d with ref := 0 } }

theorem content_time (c : FilterCriteria) :
    c.content.ifModifiedSince.map Date.time = c.ifModifiedSince.map Date.time := by
  rw [content, Option.map_map]
  rfl

theorem merge_of_covers {r f : FilterCriteria} (h : Covers r f) :
    ContentInstances.mergeFilterCriteria r f = r := by
  rw [ContentInstances.mergeFilterCriteria, SclResource.mergeFilterCriteria,
    earliest_of_atMost h.ifModifiedSince, (greatest_eq_left_iff _ _).mpr h.ifUnmodifiedSince,
    (inter_eq_left_iff _ _).mpr h.ifNoneMatch, (union_eq_left_iff _ _).mpr h.searchString,
    (least_eq_left_iff _ _).mpr h.createdAfter, (greatest_eq_left_iff _ _).mpr h.createdBefore,
    (least_eq_left_iff _ _).mpr h.sizeFrom, (least_eq_left_iff _ _).mpr h.sizeUntil,
    (union_eq_left_iff _ _).mpr h.contentType, (second_eq_left_iff _ _).mpr h.metaDataOnly]

/-- **The merge and the coverage**: merging a second criteria leaves the contents of the first one
exactly when the first one covers it. -/
theorem mergeFilterCriteria_eq_iff (r f : FilterCriteria) :
    (ContentInstances.mergeFilterCriteria r f).content = r.content ↔ Covers r f := by
  refine ⟨fun h => ?_, fun h => by rw [merge_of_covers h]⟩
  have htime := content_time (ContentInstances.mergeFilterCriteria r f)
  rw [h, content_time] at htime
  exact ⟨(earliest_eq_left_iff _ _).mp htime.symm,
    (greatest_eq_left_iff _ _).mp (congrArg FilterCriteria.ifUnmodifiedSince h),
    (inter_eq_left_iff _ _).mp (congrArg FilterCriteria.ifNoneMatch h),
    (union_eq_left_iff _ _).mp (congrArg FilterCriteria.searchString h),
    (least_eq_left_iff _ _).mp (congrArg FilterCriteria.createdAfter h),
    (greatest_eq_left_iff _ _).mp (congrArg FilterCriteria.createdBefore h),
    (least_eq_left_iff _ _).mp (congrArg FilterCriteria.sizeFrom h),
    (least_eq_left_iff _ _).mp (congrArg FilterCriteria.sizeUntil h),
    (union_eq_left_iff _ _).mp (congrArg FilterCriteria.contentType h),
    (second_eq_left_iff _ _).mp (congrArg FilterCriteria.metaDataOnly h)⟩

end FilterCriteria

end Ong.Scl
