import Ong.Lib.Pieces
import Ong.Scl.AccessRights

/-!
# The default access right

A resource without an access right of its own may be reached by the local sclBase, and below the
collections of SCLs and applications by the requesting entities whose URI is the beginning of the
local URI of the resource.  The beginning is one of texts: it may end above the collection or inside
a segment.

The local URI of a path is a base followed by the path.

## Main results

* `respects_iff`: the check lets pass entitled entities only exactly when an entity whose URI is the
  beginning of the local URI ends at the end of a segment
-/

namespace Ong.Scl

open Ong.M2M Pieces List

/-- What the check throws: an `M2MException`, or the `IndexOutOfBoundsException` of `charAt`. -/
inductive DefaultRightThrown
  | m2m (message : String) (status : StatusCode)
  | indexOutOfBounds
  deriving DecidableEq

namespace SclResource

def pathScls : JString := '/' :: resScls

def pathApplications : JString := '/' :: resApplications

/-- The URI of the local sclBase, with a slash if the requesting entity ends with one. -/
def localSclBaseFor (base requestingEntity : JString) : JString :=
  if requestingEntity.getLast? = some '/' then base ++ ['/'] else base

def checkDefaultAccessRight (base path requestingEntity : JString) :
    Except DefaultRightThrown Unit :=
  let notFound := Except.error (.m2m "Resource does not exist" .notFound)
  if requestingEntity = [] then .error .indexOutOfBounds
  else if localSclBaseFor base requestingEntity = requestingEntity then .ok ()
  else if pathScls.isPrefixOf path ∧ pathScls.length < path.length then
    if requestingEntity.isPrefixOf (base ++ path) then .ok () else notFound
  else if pathApplications.isPrefixOf path ∧ pathApplications.length < path.length then
    if requestingEntity.isPrefixOf (base ++ path) then .ok () else notFound
  else notFound

/-! ## Who is entitled -/

/-- The segments of the first path begin those of the second one. -/
def SegmentPrefix (p q : JString) : Prop := segments '/' p <+: segments '/' q

/-- The path has a segment with a name below that of a collection. -/
def StrictlyBelow (coll p : JString) : Prop :=
  ∃ name rest, segments '/' p = [] :: coll :: name :: rest ∧ name ≠ []

/-- The requesting entity is the local sclBase, or up to a trailing slash the local URI of a
resource that is strictly below a collection and on the way to the path. -/
def Entitled (base path requestingEntity : JString) : Prop :=
  requestingEntity = base ∨ requestingEntity = base ++ ['/'] ∨
    ∃ coll ∈ [resScls, resApplications], '/' :: coll ++ ['/'] <+: path ∧
      ∃ p, StrictlyBelow coll p ∧ SegmentPrefix p path ∧
        (requestingEntity = base ++ p ∨ requestingEntity = base ++ p ++ ['/'])

/-- The check lets pass only who is entitled. -/
def RespectsBoundaries (base path requestingEntity : JString) : Prop :=
  checkDefaultAccessRight base path requestingEntity = .ok () → Entitled base path requestingEntity

/-! ## Where the URI of the requesting entity ends -/

/-- After a collection the path goes on with a segment that is not empty; the URI of the requesting
entity goes on into it, and ends where the local URI ends or has a slash. -/
def EndsAtSegment (coll base path requestingEntity : JString) : Prop :=
  ∃ c rest, path = '/' :: coll ++ '/' :: c :: rest ∧ c ≠ '/' ∧
    base.length + coll.length + 2 < requestingEntity.length ∧
    (requestingEntity = base ++ path ∨ requestingEntity.getLast? = some '/' ∨
      (base ++ path)[requestingEntity.length]? = some '/')

/-- A requesting entity other than the local sclBase that passes as a text ends at a segment. -/
def BoundaryCondition (base path requestingEntity : JString) : Prop :=
  requestingEntity = base ∨ requestingEntity = base ++ ['/'] ∨
    ∀ coll ∈ [resScls, resApplications], '/' :: coll <+: path → coll.length + 1 < path.length →
      requestingEntity ≠ [] → requestingEntity <+: base ++ path →
        EndsAtSegment coll base path requestingEntity

section Segments

variable {coll p q : JString}

theorem segmentPrefix_iff : SegmentPrefix p q ↔ p = q ∨ ∃ u, q = p ++ '/' :: u :=
  segments_prefix_iff

theorem segments_collection (hcoll : '/' ∉ coll) (s : JString) :
    segments '/' ('/' :: coll ++ '/' :: s) = [] :: coll :: segments '/' s := by
  rw [cons_append, segments_sep_cons, segments_append, segments_of_notMem hcoll]
  rfl

theorem strictlyBelow_iff (hcoll : '/' ∉ coll) :
    StrictlyBelow coll p ↔ ∃ c rest, p = '/' :: coll ++ '/' :: c :: rest ∧ c ≠ '/' := by
  constructor
  · rintro ⟨name, rest, hseg, hname⟩
    have hprefix : SegmentPrefix ('/' :: coll) p := by
      rw [SegmentPrefix, segments_sep_cons, segments_of_notMem hcoll, hseg]
      exact ⟨name :: rest, rfl⟩
    rcases segmentPrefix_iff.mp hprefix with rfl | ⟨u, rfl⟩
    · rw [segments_sep_cons, segments_of_notMem hcoll] at hseg
      cases hseg
    · rw [segments_collection hcoll] at hseg
      have hu : segments '/' u = name :: rest := (cons.inj (cons.inj hseg).2).2
      cases u with
      | nil => exact absurd (cons.inj hu).1.symm hname
      | cons c u =>
        refine ⟨c, u, rfl, fun hc => ?_⟩
        rw [hc, segments_sep_cons] at hu
        exact hname (cons.inj hu).1.symm
  · rintro ⟨c, rest, rfl, hc⟩
    obtain ⟨n, ns, hns⟩ := exists_cons_of_ne_nil (segments_ne_nil '/' rest)
    refine ⟨c :: n, ns, ?_, cons_ne_nil _ _⟩
    rw [segments_collection hcoll, segments_cons_of_ne hc hns]

end Segments

section Check

variable {base path re coll : JString}

theorem slash_notMem (h : coll ∈ [resScls, resApplications]) : '/' ∉ coll := by
  have hall : ∀ coll ∈ [resScls, resApplications], '/' ∉ coll := by decide
  exact hall coll h

theorem not_both (h : pathScls <+: path) : ¬ pathApplications <+: path := by
  rintro ⟨u, hu⟩
  obtain ⟨t, rfl⟩ := h
  cases hu

theorem check_of_collection (hcoll : coll ∈ [resScls, resApplications])
    (hpath : '/' :: coll <+: path) (hlen : coll.length + 1 < path.length) (hne : re ≠ [])
    (hbase : localSclBaseFor base re ≠ re) :
    checkDefaultAccessRight base path re = .ok () ↔ re <+: base ++ path := by
  rw [checkDefaultAccessRight, if_neg hne, if_neg hbase]
  have hiff : (if re.isPrefixOf (base ++ path) = true then (.ok () : Except DefaultRightThrown Unit)
      else .error (.m2m "Resource does not exist" .notFound)) = .ok () ↔ re <+: base ++ path := by
    by_cases h : re <+: base ++ path
    · rw [if_pos (List.isPrefixOf_iff_prefix.mpr h)]
      exact iff_of_true rfl h
    · rw [if_neg (List.isPrefixOf_iff_prefix.not.mpr h)]
      exact iff_of_false (by simp) h
  rcases mem_cons.mp hcoll with rfl | hcoll
  · rw [if_pos ⟨List.isPrefixOf_iff_prefix.mpr hpath, hlen⟩]
    exact hiff
  · obtain rfl := mem_singleton.mp hcoll
    have hscls : ¬ (pathScls.isPrefixOf path = true ∧ pathScls.length < path.length) :=
      fun h => not_both (List.isPrefixOf_iff_prefix.mp h.1) hpath
    rw [if_neg hscls, if_pos ⟨List.isPrefixOf_iff_prefix.mpr hpath, hlen⟩]
    exact hiff

theorem of_check (h : checkDefaultAccessRight base path re = .ok ()) :
    re ≠ [] ∧ (localSclBaseFor base re = re ∨
      ∃ coll ∈ [resScls, resApplications], '/' :: coll <+: path ∧ coll.length + 1 < path.length) := by
  rw [checkDefaultAccessRight] at h
  split at h
  · cases h
  · rename_i hne
    refine ⟨hne, ?_⟩
    split at h
    · exact .inl ‹_›
    · split at h
      · rename_i hscls
        exact .inr ⟨resScls, by decide, List.isPrefixOf_iff_prefix.mp hscls.1, hscls.2⟩
      · split at h
        · rename_i happ
          exact .inr ⟨resApplications, by decide, List.isPrefixOf_iff_prefix.mp happ.1, happ.2⟩
        · cases h

theorem sclBase_of_eq (h : localSclBaseFor base re = re) : re = base ∨ re = base ++ ['/'] := by
  rw [localSclBaseFor] at h
  split at h
  · exact .inr h.symm
  · exact .inl h.symm

theorem entitled_of_endsAtSegment (hcoll : coll ∈ [resScls, resApplications])
    (hre : re <+: base ++ path) (h : EndsAtSegment coll base path re) : Entitled base path re := by
  obtain ⟨c, rest, rfl, hc, hlen, hend⟩ := h
  have hslash := slash_notMem hcoll
  obtain ⟨t, ht⟩ := hre
  have hbase : base <+: re := by
    refine prefix_of_prefix_length_le (prefix_append _ _) ⟨t, ht⟩ ?_
    omega
  obtain ⟨p, rfl⟩ := hbase
  rw [append_assoc] at ht
  have hpath : p ++ t = '/' :: coll ++ '/' :: c :: rest := append_cancel_left ht
  have hbelow : '/' :: coll ++ ['/', c] <+: p := by
    have hwhole : '/' :: coll ++ ['/', c] <+: '/' :: coll ++ '/' :: c :: rest :=
      ⟨rest, by simp⟩
    refine prefix_of_prefix_length_le hwhole ⟨t, hpath⟩ ?_
    simp only [length_append, length_cons, length_nil] at hlen ⊢
    omega
  obtain ⟨p', rfl⟩ := hbelow
  have hunder : '/' :: coll ++ ['/'] <+: '/' :: coll ++ '/' :: c :: rest := ⟨c :: rest, by simp⟩
  have hstrict : StrictlyBelow coll ('/' :: coll ++ ['/', c] ++ p') :=
    (strictlyBelow_iff hslash).mpr ⟨c, p', by simp, hc⟩
  refine .inr (.inr ⟨coll, hcoll, hunder, ?_⟩)
  rcases hend with hend | hend | hend
  · exact ⟨_, hstrict, segmentPrefix_iff.mpr (.inl (append_cancel_left hend)), .inl rfl⟩
  · have hne : '/' :: coll ++ ['/', c] ++ p' ≠ [] := by simp
    have hlast : ('/' :: coll ++ ['/', c] ++ p').getLast? = some '/' := by
      rwa [getLast?_append_of_ne_nil _ hne] at hend
    cases hp' : p'.reverse with
    | nil =>
      obtain rfl := reverse_eq_nil_iff.mp hp'
      rw [append_nil, getLast?_append_of_ne_nil _ (cons_ne_nil _ _)] at hlast
      exact absurd (Option.some.inj hlast) hc
    | cons x s =>
      obtain rfl : p' = s.reverse ++ [x] := by
        have := congrArg reverse hp'
        rwa [reverse_reverse, reverse_cons] at this
      rw [← append_assoc, getLast?_append_of_ne_nil _ (cons_ne_nil _ _)] at hlast
      obtain rfl : x = '/' := Option.some.inj hlast
      refine ⟨'/' :: coll ++ ['/', c] ++ s.reverse,
        (strictlyBelow_iff hslash).mpr ⟨c, s.reverse, by simp, hc⟩,
        segmentPrefix_iff.mpr (.inr ⟨t, ?_⟩), .inr (by simp)⟩
      rw [← hpath]
      simp
  · rw [← hpath, ← append_assoc, getElem?_append_right (Nat.le_refl _), Nat.sub_self] at hend
    cases t with
    | nil => cases hend
    | cons x t =>
      obtain rfl : x = '/' := Option.some.inj hend
      exact ⟨_, hstrict, segmentPrefix_iff.mpr (.inr ⟨t, hpath.symm⟩), .inl rfl⟩

theorem endsAtSegment_of_below (hcoll : coll ∈ [resScls, resApplications]) {p : JString}
    (hp : StrictlyBelow coll p) (hsegment : SegmentPrefix p path)
    (hre : re = base ++ p ∨ re = base ++ p ++ ['/']) (hpath : re <+: base ++ path) :
    EndsAtSegment coll base path re := by
  obtain ⟨c, rest, rfl, hc⟩ := (strictlyBelow_iff (slash_notMem hcoll)).mp hp
  have hgoes : ∃ rest', path = '/' :: coll ++ '/' :: c :: rest' := by
    rcases segmentPrefix_iff.mp hsegment with rfl | ⟨u, rfl⟩
    · exact ⟨rest, rfl⟩
    · exact ⟨rest ++ '/' :: u, by simp⟩
  obtain ⟨rest', hrest'⟩ := hgoes
  refine ⟨c, rest', hrest', hc, ?_, ?_⟩
  · rcases hre with rfl | rfl <;>
      simp only [length_append, length_cons, length_nil] <;> omega
  · rcases hre with rfl | rfl
    · rcases segmentPrefix_iff.mp hsegment with heq | ⟨u, hu⟩
      · exact .inl (by rw [heq])
      · refine .inr (.inr ?_)
        rw [hu, ← append_assoc, getElem?_append_right (Nat.le_refl _), Nat.sub_self]
        rfl
    · exact .inr (.inl (getLast?_append_of_ne_nil _ (cons_ne_nil _ _)))

/-- **Resource boundaries.**  The check lets pass entitled entities only if and only if the entity
is the local sclBase, or does not begin the local URI of a path below a collection, or ends at the
end of a segment below the collection. -/
theorem respects_iff (base path re : JString) :
    RespectsBoundaries base path re ↔ BoundaryCondition base path re := by
  constructor
  · intro h
    by_cases hroot : re = base ∨ re = base ++ ['/']
    · exact hroot.imp_right .inl
    obtain ⟨hbase, hslash⟩ := not_or.mp hroot
    refine .inr (.inr fun coll hcoll hpath hlen hne hre => ?_)
    have hscl : localSclBaseFor base re ≠ re := fun heq => hroot (sclBase_of_eq heq)
    have hok := (check_of_collection hcoll hpath hlen hne hscl).mpr hre
    rcases h hok with heq | heq | ⟨coll', hcoll', hunder, p, hp, hprefix, hre'⟩
    · exact absurd heq hbase
    · exact absurd heq hslash
    · have hpath' : '/' :: coll' <+: path := (prefix_append _ _).trans hunder
      have hsame : coll' = coll := by
        rcases mem_cons.mp hcoll with rfl | hc <;> rcases mem_cons.mp hcoll' with rfl | hc'
        · rfl
        · rw [mem_singleton.mp hc'] at hpath'
          exact absurd hpath' (not_both hpath)
        · rw [mem_singleton.mp hc] at hpath
          exact absurd hpath (not_both hpath')
        · rw [mem_singleton.mp hc, mem_singleton.mp hc']
      subst hsame
      exact endsAtSegment_of_below hcoll hp hprefix hre' hre
  · intro h hok
    obtain ⟨hne, hwho⟩ := of_check hok
    rcases h with rfl | rfl | h
    · exact .inl rfl
    · exact .inr (.inl rfl)
    rcases hwho with heq | ⟨coll, hcoll, hpath, hlen⟩
    · exact (sclBase_of_eq heq).imp_right .inl
    by_cases hscl : localSclBaseFor base re = re
    · exact (sclBase_of_eq hscl).imp_right .inl
    · have hre := (check_of_collection hcoll hpath hlen hne hscl).mp hok
      exact entitled_of_endsAtSegment hcoll hre (h coll hcoll hpath hlen hne hre)

/-- An SCL is let in to the resources of another one whose name goes on where its own ends. -/
theorem sibling_let_in : ¬ RespectsBoundaries "http://gscl/m2m".toList "/scls/ab".toList
    "http://gscl/m2m/scls/a".toList := by
  intro h
  rcases h (by decide +kernel) with h | h | ⟨coll, hcoll, -, p, hp, hprefix, hre⟩
  · exact absurd h (by decide +kernel)
  · exact absurd h (by decide +kernel)
  · obtain ⟨c, rest, -, -, -, hend⟩ := endsAtSegment_of_below hcoll hp hprefix hre (by decide +kernel)
    revert hend
    decide +kernel

end Check

end SclResource

end Ong.Scl
