import Ong.Lib.Pieces
import Ong.Scl.AccessRights

/-!
# Holders by the segments of their URI

The segment before the last one tells whether the last one is the id of an application or of an SCL.
It is compared with the name of the collection over its own length only, so a beginning of the name,
and no characters at all, count as the name.

## Main results

* `checkAppIDorSclID_of_named`, `checkAppIDorSclID_of_not_named`: what the check ends with
* `whole_of_not_short`: it finds holders by whole segments exactly where no shorter one finds them
-/

namespace Ong.Scl

open Ong.M2M Pieces List

section Strings

variable {c : Char} {a b s t : JString} {n : Nat}

theorem lastIndexOf_eq_none (h : c ∉ s.take n) : lastIndexOf c s n = none := by
  induction n with
  | zero => rfl
  | succ n ih =>
    rw [take_add_one, mem_append, not_or] at h
    rw [lastIndexOf, if_neg, ih h.1]
    intro hn
    rw [hn] at h
    exact h.2 mem_cons_self

theorem lastIndexOf_eq_some (h : c ∉ b) :
    lastIndexOf c (a ++ c :: (b ++ t)) (a.length + 1 + b.length) = some a.length := by
  induction b using reverseRecOn generalizing t with
  | nil => rw [length_nil, Nat.add_zero, lastIndexOf, if_pos (by simp)]
  | append_singleton b x ih =>
    have hx : c ≠ x := fun hcx => h (by simp [hcx])
    have hget : (a ++ c :: (b ++ [x] ++ t))[a.length + 1 + b.length]? = some x := by
      rw [getElem?_append_right (by omega),
        show a.length + 1 + b.length - a.length = b.length + 1 by omega, getElem?_cons_succ,
        append_assoc, getElem?_append_right (Nat.le_refl _), Nat.sub_self]
      rfl
    rw [length_append, length_singleton, ← Nat.add_assoc, lastIndexOf, hget,
      if_neg (fun hxc => hx (Option.some.inj hxc).symm), append_assoc]
    exact ih fun hmem => h (mem_append_left _ hmem)

theorem chop_append (s : JString) : ∃ t, s = chop '/' s ++ t ∧
    (s.getLast? = some '/' ∧ t = ['/'] ∨ s.getLast? ≠ some '/' ∧ t = []) := by
  unfold chop
  split
  · next h => exact ⟨['/'], (dropLast_append_getLast? '/' h).symm, .inl ⟨h, rfl⟩⟩
  · next h => exact ⟨[], (append_nil s).symm, .inr ⟨h, rfl⟩⟩

theorem lastIndexOf_pred (s : JString) :
    lastIndexOf '/' s (s.length - 1) = lastIndexOf '/' s (chop '/' s).length := by
  unfold chop
  split
  · rw [length_dropLast]
  · next h =>
    rcases eq_nil_or_concat s with rfl | ⟨s, x, rfl⟩
    · rfl
    · rw [concat_eq_append, length_append, length_singleton, Nat.add_sub_cancel,
        lastIndexOf, if_neg (by simpa using h)]

/-- The first characters of `other` are those of `seg`, ignoring case. -/
def samePrefix (seg other : JString) : Bool :=
  seg.length ≤ other.length && (seg.zip (other.take seg.length)).all fun p => sameLetter p.1 p.2

def equalsIgnoreCase (seg other : JString) : Bool := seg.length = other.length && samePrefix seg other

theorem regionMatches_append (a seg t other : JString) :
    regionMatches (a ++ (seg ++ t)) a.length other seg.length = samePrefix seg other := by
  have hlen : decide (a.length + seg.length ≤ (a ++ (seg ++ t)).length) = true := by
    rw [decide_eq_true_eq, length_append, length_append]
    omega
  rw [regionMatches, hlen, Bool.true_and, drop_left, take_left, samePrefix]

theorem toLowerCase_of_sameLetter {a b : Char} (h : sameLetter a b = true) :
    toLowerCase (toUpperCase a) = toLowerCase (toUpperCase b) := by
  simp only [sameLetter, Bool.or_eq_true, decide_eq_true_eq] at h
  rcases h with (h | h) | h
  · rw [h]
  · rw [h]
  · exact h

theorem eq_nil_of_samePrefix {seg : JString} (happ : samePrefix seg SclResource.resApplications)
    (hscl : samePrefix seg SclResource.resScls) : seg = [] := by
  cases seg with
  | nil => rfl
  | cons x seg =>
    have ha : sameLetter x 'a' = true := by
      have hall := (Bool.and_eq_true_iff.mp happ).2
      exact all_eq_true.mp hall (x, 'a') (by simp [SclResource.resApplications])
    have hs : sameLetter x 's' = true := by
      have hall := (Bool.and_eq_true_iff.mp hscl).2
      exact all_eq_true.mp hall (x, 's') (by simp [SclResource.resScls])
    have hlower := (toLowerCase_of_sameLetter ha).symm.trans (toLowerCase_of_sameLetter hs)
    exact absurd hlower (by decide)

end Strings

/-! ## The last two segments -/

/-- A URI has three segments at least, and `seg` and `last` are the last two; a slash at its end
does not count. -/
def Named (u seg last : JString) : Prop :=
  ∃ ps, segments '/' (chop '/' u) = ps ++ [seg] ++ [last] ∧ ps ≠ []

section Named

variable {u seg last seg' last' : JString}

theorem Named.unique (h : Named u seg last) (h' : Named u seg' last') :
    seg = seg' ∧ last = last' := by
  obtain ⟨ps, hps, -⟩ := h
  obtain ⟨ps', hps', -⟩ := h'
  obtain ⟨hseg, hlast⟩ := append_inj' (hps.symm.trans hps') rfl
  exact ⟨singleton_inj.mp (append_inj' hseg rfl).2, singleton_inj.mp hlast⟩

theorem Named.eq_append (h : Named u seg last) : ∃ b, chop '/' u = b ++ '/' :: seg ++ '/' :: last ∧
    '/' ∉ seg ∧ '/' ∉ last := by
  obtain ⟨ps, hps, hne⟩ := h
  obtain ⟨a, hu, hlast, ha⟩ := eq_append_of_segments hps (by simp)
  obtain ⟨b, rfl, hseg, -⟩ := eq_append_of_segments ha hne
  exact ⟨b, hu, hseg, hlast⟩

theorem named_of_eq_append {b : JString} (h : chop '/' u = b ++ '/' :: seg ++ '/' :: last)
    (hseg : '/' ∉ seg) (hlast : '/' ∉ last) : Named u seg last := by
  refine ⟨segments '/' b, ?_, segments_ne_nil _ _⟩
  rw [h, segments_append, segments_append, segments_of_notMem hseg, segments_of_notMem hlast]

end Named

namespace SclResource

variable {env : Platform} {holders : PermissionHolders} {u seg last : JString}

theorem checkID_eq_lookup {a : JString} (hu : chop '/' u = a ++ '/' :: last)
    (ids : Option (List JString)) : checkID env u a.length ids = lookup env last ids := by
  obtain ⟨t, hut, ht⟩ := chop_append u
  have hdrop : u.drop (a.length + 1) = last ++ t := by
    rw [hut, hu, append_assoc, drop_append, drop_of_length_le (Nat.le_succ _),
      Nat.add_sub_cancel_left]
    rfl
  have hlast : (if u.getLast? = some '/' then (u.drop (a.length + 1)).dropLast
      else u.drop (a.length + 1)) = last := by
    rw [hdrop]
    rcases ht with ⟨hslash, rfl⟩ | ⟨hslash, rfl⟩
    · rw [if_pos hslash, dropLast_concat]
    · rw [if_neg hslash, append_nil]
  simp only [checkID, hlast]
  rfl

/-- **The check of a URI with its last two segments.** -/
theorem checkAppIDorSclID_of_named (h : Named u seg last) :
    checkAppIDorSclID env holders u =
      if samePrefix seg resApplications then lookup env last holders.applicationIDs
      else if samePrefix seg resScls then lookup env last holders.sclIDs
      else .ok false := by
  obtain ⟨b, hchop, hseg, hlast⟩ := h.eq_append
  obtain ⟨t, hut, -⟩ := chop_append u
  have hslash : lastIndexOf '/' u (u.length - 1) = some (b ++ '/' :: seg).length := by
    have hlen : (chop '/' u).length = (b ++ '/' :: seg).length + 1 + last.length := by
      rw [hchop, length_append, length_cons]
      omega
    rw [lastIndexOf_pred, hlen, hut, hchop, append_assoc]
    exact lastIndexOf_eq_some hlast
  have hslash2 : lastIndexOf '/' u (b ++ '/' :: seg).length = some b.length := by
    have hlen : (b ++ '/' :: seg).length = b.length + 1 + seg.length := by
      rw [length_append, length_cons]
      omega
    rw [hlen, hut, hchop, append_assoc, append_assoc, cons_append]
    exact lastIndexOf_eq_some hseg
  have hlen : (b ++ '/' :: seg).length - b.length - 1 = seg.length := by
    rw [length_append, length_cons]
    omega
  have hregion (other : JString) :
      regionMatches u (b.length + 1) other seg.length = samePrefix seg other := by
    have hu : u = (b ++ ['/']) ++ (seg ++ ('/' :: last ++ t)) := by
      rw [hut, hchop]
      simp
    have hb : b.length + 1 = (b ++ ['/']).length := by
      rw [length_append, length_singleton]
    rw [hu, hb, regionMatches_append]
  simp only [checkAppIDorSclID, hslash, hslash2, hlen, hregion, checkID_eq_lookup hchop]

/-- Any other URI matches nothing. -/
theorem checkAppIDorSclID_of_not_named (h : ∀ seg last, ¬ Named u seg last) :
    checkAppIDorSclID env holders u = .ok false := by
  obtain ⟨t, hut, -⟩ := chop_append u
  by_cases hmem : '/' ∈ chop '/' u
  · obtain ⟨a, last, hchop, hlast⟩ := exists_last hmem
    have ha : '/' ∉ a := by
      intro ha
      obtain ⟨b, seg, rfl, hseg⟩ := exists_last ha
      exact h seg last (named_of_eq_append hchop hseg hlast)
    have hslash : lastIndexOf '/' u (u.length - 1) = some a.length := by
      have hlen : (chop '/' u).length = a.length + 1 + last.length := by
        rw [hchop, length_append, length_cons]
        omega
      rw [lastIndexOf_pred, hlen, hut, hchop, append_assoc]
      exact lastIndexOf_eq_some hlast
    have hslash2 : lastIndexOf '/' u a.length = none := by
      refine lastIndexOf_eq_none ?_
      rwa [hut, hchop, append_assoc, take_left]
    simp only [checkAppIDorSclID, hslash, hslash2]
  · have hslash : lastIndexOf '/' u (u.length - 1) = none := by
      rw [lastIndexOf_pred]
      refine lastIndexOf_eq_none fun h => hmem ?_
      have htake : u.take (chop '/' u).length = chop '/' u := by
        nth_rewrite 2 [hut]
        exact take_left
      rwa [htake] at h
    simp only [checkAppIDorSclID, hslash]

/-- The check matches an id of a collection by the whole segment that names it. -/
def WholeSegment (env : Platform) (holders : PermissionHolders) (u : JString) : Prop :=
  ∃ seg last, Named u seg last ∧
    (equalsIgnoreCase seg resApplications ∧ lookup env last holders.applicationIDs = .ok true ∨
      equalsIgnoreCase seg resScls ∧ lookup env last holders.sclIDs = .ok true)

/-- The segment is the beginning of a name only, and the id is in the list of that collection; no
characters at all count as a beginning of the first name. -/
def ShortSegment (env : Platform) (holders : PermissionHolders) (u : JString) : Prop :=
  ∃ seg last, Named u seg last ∧
    (samePrefix seg resApplications ∧ seg.length < resApplications.length ∧
        lookup env last holders.applicationIDs = .ok true ∨
      samePrefix seg resScls ∧ 0 < seg.length ∧ seg.length < resScls.length ∧
        lookup env last holders.sclIDs = .ok true)

theorem length_le_of_samePrefix {other : JString} (h : samePrefix seg other) :
    seg.length ≤ other.length := by
  simpa using (Bool.and_eq_true_iff.mp h).1

theorem equalsIgnoreCase_iff {other : JString} :
    equalsIgnoreCase seg other ↔ seg.length = other.length ∧ samePrefix seg other := by
  simp [equalsIgnoreCase]

/-- **Holders are found by whole segments exactly where no shorter one finds them.** -/
theorem whole_of_not_short (env : Platform) (holders : PermissionHolders) (u : JString) :
    (checkAppIDorSclID env holders u = .ok true → WholeSegment env holders u) ↔
      ¬ ShortSegment env holders u := by
  constructor
  · rintro h ⟨seg, last, hnamed, hshort⟩
    rw [checkAppIDorSclID_of_named hnamed] at h
    rcases hshort with ⟨happ, hlen, hlookup⟩ | ⟨hscl, hpos, hlen, hlookup⟩
    · rw [if_pos happ] at h
      obtain ⟨seg', last', hnamed', hwhole⟩ := h hlookup
      obtain ⟨rfl, rfl⟩ := hnamed.unique hnamed'
      rcases hwhole with ⟨hwhole, -⟩ | ⟨hwhole, -⟩
      · exact hlen.ne (equalsIgnoreCase_iff.mp hwhole).1
      · obtain ⟨hlen', hscl⟩ := equalsIgnoreCase_iff.mp hwhole
        rw [eq_nil_of_samePrefix happ hscl] at hlen'
        cases hlen'
    · have happ : ¬ samePrefix seg resApplications := fun happ => by
        rw [eq_nil_of_samePrefix happ hscl] at hpos
        exact absurd hpos (Nat.lt_irrefl 0)
      rw [if_neg happ, if_pos hscl] at h
      obtain ⟨seg', last', hnamed', hwhole⟩ := h hlookup
      obtain ⟨rfl, rfl⟩ := hnamed.unique hnamed'
      rcases hwhole with ⟨hwhole, -⟩ | ⟨hwhole, -⟩
      · exact happ (equalsIgnoreCase_iff.mp hwhole).2
      · exact hlen.ne (equalsIgnoreCase_iff.mp hwhole).1
  · intro hshort hcheck
    by_cases hnamed : ∃ seg last, Named u seg last
    · obtain ⟨seg, last, hnamed⟩ := hnamed
      rw [checkAppIDorSclID_of_named hnamed] at hcheck
      refine ⟨seg, last, hnamed, ?_⟩
      split at hcheck
      · next happ =>
        refine .inl ⟨equalsIgnoreCase_iff.mpr ⟨?_, happ⟩, hcheck⟩
        refine (length_le_of_samePrefix happ).antisymm (Nat.not_lt.mp fun hlen => ?_)
        exact hshort ⟨seg, last, hnamed, .inl ⟨happ, hlen, hcheck⟩⟩
      · next happ =>
        split at hcheck
        · next hscl =>
          have hpos : 0 < seg.length := by
            refine length_pos_iff.mpr fun hnil => happ ?_
            rw [hnil]
            rfl
          refine .inr ⟨equalsIgnoreCase_iff.mpr ⟨?_, hscl⟩, hcheck⟩
          refine (length_le_of_samePrefix hscl).antisymm (Nat.not_lt.mp fun hlen => ?_)
          exact hshort ⟨seg, last, hnamed, .inr ⟨hscl, hpos, hlen, hcheck⟩⟩
        · cases hcheck
    · rw [checkAppIDorSclID_of_not_named fun seg last hn => hnamed ⟨seg, last, hn⟩] at hcheck
      cases hcheck

/-- The platform, on texts without a scheme, an authority or escapes. -/
def plain : Platform where
  parseUri text := some ⟨some text, none⟩
  decode := some
  localSclBase _ := "http://local/m2m".toList

/-- The last segment of `http://any/a/meter` is taken for the id of an application. -/
theorem letter_matches_applications :
    ¬ (checkAppIDorSclID plain ⟨false, none, none, some ["meter".toList], none⟩
        "http://any/a/meter".toList = .ok true →
      WholeSegment plain ⟨false, none, none, some ["meter".toList], none⟩
        "http://any/a/meter".toList) := by
  intro h
  have hnamed : Named "http://any/a/meter".toList "a".toList "meter".toList :=
    ⟨["http:".toList, [], "any".toList], by decide +kernel, by simp⟩
  obtain ⟨seg, last, hnamed', hwhole⟩ := h (by decide +kernel)
  obtain ⟨rfl, rfl⟩ := hnamed.unique hnamed'
  rcases hwhole with ⟨hwhole, -⟩ | ⟨hwhole, -⟩ <;> revert hwhole <;> decide +kernel

end SclResource

end Ong.Scl
