import Ong.Lib.DotSegments
import Ong.Scl.AccessRightsSegments

/-!
# Normalised paths

A path that a representation refers to is resolved against the path of the resource: the segments of
the directory of the resource's path are kept as they are, empty segments and single dots of the
path are dropped, and two dots remove the segment before them.  A slash at the end is left, added or
removed. The root without a slash at its end is the empty path.

## Main results

* `normalizePath_eq`: the text in the buffer is that of the place the segments lead to
* `normalizePath_spec`: what the result is, and when there is none
-/

namespace Ong.Scl

open Ong.M2M Pieces DotSegments List

/-- An `M2MException` with its message and status. -/
structure M2MException where
  message : JString
  status : StatusCode

namespace SclResource

/-! ## The resolution in a buffer -/

def idSlashMgmtLeave : Int := 0

def idSlashMgmtAdd : Int := 1

def idSlashMgmtRemove : Int := 2

/-- The path climbs above the root. -/
def notValidPath (tagName path : JString) : M2MException where
  message := tagName ++ " is not pointing to a valid path: ".toList ++ path
  status := .badRequest

/-- The body of the loop: what a segment that was read does to the buffer. -/
def appendSegment (tagName path normalizedPath tmpPath : JString) : Except M2MException JString :=
  if tmpPath = [] ∨ tmpPath = ['.'] then .ok normalizedPath
  else if tmpPath = ['.', '.'] then
    match lastIndexOf '/' normalizedPath (normalizedPath.length - 1) with
    | none => .error (notValidPath tagName path)
    | some lastSlash => .ok (normalizedPath.take (lastSlash + 1))
  else .ok (normalizedPath ++ tmpPath ++ ['/'])

theorem length_tail_dropWhile_lt {rest : JString} (h : rest ≠ []) :
    (rest.dropWhile (· ≠ '/')).tail.length < rest.length := by
  have hdrop := (dropWhile_sublist (l := rest) (· ≠ '/')).length_le
  have hpos := length_pos_iff.mpr h
  rw [length_tail]
  omega

/-- The loop over the rest of the path: each segment is read until the next slash, which is
skipped. -/
def readSegments (tagName path normalizedPath rest : JString) : Except M2MException JString :=
  if _h : rest = [] then .ok normalizedPath
  else match appendSegment tagName path normalizedPath (rest.takeWhile (· ≠ '/')) with
    | .error e => .error e
    | .ok buffer => readSegments tagName path buffer (rest.dropWhile (· ≠ '/')).tail
termination_by rest.length
decreasing_by exact length_tail_dropWhile_lt ‹_›

/-- What the buffer begins with, for a path that does not begin with a slash: the context path up to
its last slash. -/
def contextDirectory (contextPath : JString) : JString :=
  if contextPath.getLast? = some '/' then contextPath
  else match lastIndexOf '/' contextPath contextPath.length with
    | none => []
    | some i => contextPath.take (i + 1)

/-- The slash at the end. -/
def manageSlash (slashManagement : Int) (path normalizedPath : JString) : JString :=
  if slashManagement = idSlashMgmtLeave then
    if path.getLast? ≠ some '/' then normalizedPath.dropLast else normalizedPath
  else if slashManagement = idSlashMgmtAdd then normalizedPath
  else if slashManagement = idSlashMgmtRemove then normalizedPath.dropLast
  else normalizedPath

def normalizePath (tagName contextPath path : JString) (slashManagement : Int) :
    Except M2MException JString :=
  if contextPath.head? ≠ some '/' then
    .error ⟨"Invalid contextPath used in normalization: ".toList ++ contextPath, .internalServerError⟩
  else
    let normalizedPath : Except M2MException JString := match path with
      -- `readCurrent` throws a `ParseException` with the text as its message
      | [] => .error ⟨"Cannot decode path: ".toList ++ path, .internalServerError⟩
      | '/' :: rest => readSegments tagName path ['/'] rest
      | _ => readSegments tagName path (contextDirectory contextPath) path
    normalizedPath.map (manageSlash slashManagement path)

/-! ## The place -/

/-- The segments that the path is resolved against. -/
def directory (contextPath path : JString) : List JString :=
  if path.head? = some '/' then [] else (segments '/' contextPath).tail.dropLast

/-- What is thrown or returned, when the segments lead to a place or none. -/
def written (tagName path : JString) (slash : Bool) : Option (List JString) →
    Except M2MException JString
  | none => .error (notValidPath tagName path)
  | some place => .ok (render '/' place slash)

/-- The result should end with a slash. -/
def endsWithSlash (slashManagement : Int) (path : JString) : Bool :=
  if slashManagement = idSlashMgmtLeave then path.getLast? = some '/'
  else slashManagement ≠ idSlashMgmtRemove

variable {tagName contextPath path : JString} {slashManagement : Int} {place : List JString}
  {s rest : JString}

theorem manageSlash_render : manageSlash slashManagement path (render '/' place true) =
    render '/' place (endsWithSlash slashManagement path) := by
  unfold manageSlash endsWithSlash
  by_cases hleave : slashManagement = idSlashMgmtLeave
  · rw [if_pos hleave, if_pos hleave]
    by_cases hlast : path.getLast? = some '/'
    · rw [if_neg (not_not.mpr hlast), decide_eq_true hlast]
    · rw [if_pos hlast, decide_eq_false hlast, dropLast_render]
  · rw [if_neg hleave, if_neg hleave]
    by_cases hremove : slashManagement = idSlashMgmtRemove
    · rw [if_neg (by rw [hremove]; decide), if_pos hremove, dropLast_render, hremove]
      rfl
    · rw [if_neg hremove, decide_eq_true hremove, ite_self]

theorem appendSegment_render (hplace : ∀ t ∈ place, '/' ∉ t) (s : JString) :
    appendSegment tagName path (render '/' place true) s =
      written tagName path true (enter '.' place s) := by
  unfold appendSegment
  rcases cases_segment '.' s with h | rfl | h
  · rw [if_pos h, enter_stay place h, written]
  · rw [if_neg (by decide), if_pos rfl, enter_dots]
    rcases eq_nil_or_concat place with rfl | ⟨before, t, rfl⟩
    · rfl
    · have ht : '/' ∉ t := hplace t (by simp)
      have htext : render '/' (before.concat t) true =
          render '/' before false ++ '/' :: (t ++ ['/']) := by
        rw [concat_eq_append, render_concat, render_true, append_assoc,
          singleton_append]
      have hlength : (render '/' (before.concat t) true).length - 1 =
          (render '/' before false).length + 1 + t.length := by
        rw [htext]
        simp only [length_append, length_cons, length_nil]
        omega
      have hbefore : (render '/' (before.concat t) true).take ((render '/' before false).length + 1) =
          render '/' before true := by
        rw [htext, render_true, take_length_add_append]
        rfl
      have hslash : lastIndexOf '/' (render '/' (before.concat t) true)
          ((render '/' (before.concat t) true).length - 1) =
            some (render '/' before false).length := by
        rw [hlength, htext]
        exact lastIndexOf_eq_some ht
      have hdrop : (before.concat t).dropLast = before := by
        rw [concat_eq_append, dropLast_concat]
      rw [hslash, if_neg (by simp), hdrop, written, ← hbefore]
  · rw [if_neg (not_or.mpr ⟨h.nonempty, h.ne_dot⟩), if_neg h.ne_dots, enter_proper place h,
      written, render_concat, append_assoc]

theorem notMem_of_enter {next : List JString} (hplace : ∀ t ∈ place, '/' ∉ t) (hs : '/' ∉ s)
    (h : enter '.' place s = some next) : ∀ t ∈ next, '/' ∉ t := by
  intro t ht
  rcases mem_of_enter h ht with ht | ⟨rfl, -⟩
  · exact hplace t ht
  · exact hs

theorem segments_eq_read (rest : JString) :
    '/' ∉ rest.takeWhile (· ≠ '/') ∧
      ((segments '/' rest = rest.takeWhile (· ≠ '/') ::
          segments '/' (rest.dropWhile (· ≠ '/')).tail) ∨
        segments '/' rest = [rest.takeWhile (· ≠ '/')] ∧ (rest.dropWhile (· ≠ '/')).tail = []) := by
  have hread : '/' ∉ rest.takeWhile (· ≠ '/') := fun hmem => by
    simpa using mem_takeWhile_imp hmem
  refine ⟨hread, ?_⟩
  have hsplit := takeWhile_append_dropWhile (p := (· ≠ '/')) (l := rest)
  cases hdrop : rest.dropWhile (· ≠ '/') with
  | nil =>
    rw [hdrop, append_nil] at hsplit
    refine .inr ⟨?_, rfl⟩
    rw [hsplit] at hread ⊢
    exact segments_of_notMem hread
  | cons c tail =>
    have hc : c = '/' := by
      have := head?_dropWhile_not (· ≠ '/') rest
      rw [hdrop] at this
      simpa using this
    subst hc
    rw [hdrop] at hsplit
    refine .inl ?_
    conv_lhs => rw [← hsplit]
    rw [segments_append, segments_of_notMem hread]
    rfl

/-- **The loop** leaves in the buffer the text of the place that the segments lead to. -/
theorem readSegments_render (hplace : ∀ t ∈ place, '/' ∉ t) (rest : JString) :
    readSegments tagName path (render '/' place true) rest =
      written tagName path true (resolve '.' place (segments '/' rest)) := by
  generalize hn : rest.length = n
  induction n using Nat.strong_induction_on generalizing rest place with
  | _ n ih =>
    rw [readSegments]
    by_cases hrest : rest = []
    · rw [dif_pos hrest, hrest]
      rfl
    · obtain ⟨hread, hsegments⟩ := segments_eq_read rest
      have hlt := length_tail_dropWhile_lt hrest
      have hresolve : resolve '.' place (segments '/' rest) =
          (enter '.' place (rest.takeWhile (· ≠ '/'))).bind fun next =>
            resolve '.' next (segments '/' (rest.dropWhile (· ≠ '/')).tail) := by
        rcases hsegments with h | ⟨h, hnil⟩
        · rw [h, resolve]
        · rw [h, hnil, resolve]
          rfl
      rw [dif_neg hrest, appendSegment_render hplace, hresolve]
      cases henter : enter '.' place (rest.takeWhile (· ≠ '/')) with
      | none => rfl
      | some next =>
        exact ih _ (hn ▸ hlt) (notMem_of_enter hplace hread henter) _ rfl

theorem contextDirectory_eq (h : contextPath.head? = some '/') :
    contextDirectory contextPath = render '/' ((segments '/' contextPath).tail.dropLast) true := by
  obtain ⟨tail, rfl⟩ : ∃ tail, contextPath = '/' :: tail := by
    cases contextPath with
    | nil => cases h
    | cons c tail => exact ⟨tail, by rw [Option.some.inj h]⟩
  have hmem : '/' ∈ '/' :: tail := mem_cons_self
  obtain ⟨a, b, hab, hb⟩ := exists_last hmem
  have hdirectory : render '/' ((segments '/' ('/' :: tail)).tail.dropLast) true = a ++ ['/'] := by
    rw [hab, segments_append, segments_of_notMem hb]
    cases a with
    | nil => rfl
    | cons c a =>
      obtain rfl : '/' = c := (cons.inj hab).1
      rw [segments_sep_cons, cons_append, tail_cons, dropLast_concat, render_true,
        render_segments]
  rw [hdirectory, contextDirectory, hab]
  split
  · rename_i hlast
    rcases eq_nil_or_concat b with rfl | ⟨b', c, rfl⟩
    · rfl
    · rw [concat_eq_append, ← cons_append, ← append_assoc,
        getLast?_concat] at hlast
      exact absurd (by rw [Option.some.inj hlast]; simp) hb
  · have hslash : lastIndexOf '/' (a ++ '/' :: b) (a ++ '/' :: b).length = some a.length := by
      have := lastIndexOf_eq_some (c := '/') (a := a) (b := b) (t := []) hb
      rw [append_nil] at this
      rw [← this]
      refine congrArg _ ?_
      simp only [length_append, length_cons]
      omega
    rw [hslash]
    show (a ++ '/' :: b).take (a.length + 1) = a ++ ['/']
    rw [take_length_add_append]
    rfl

theorem notMem_of_mem_directory {t : JString} (h : t ∈ directory contextPath path) : '/' ∉ t := by
  unfold directory at h
  split at h
  · cases h
  · exact notMem_of_mem_segments ((tail_sublist _).subset ((dropLast_sublist _).subset h))

/-- **The result** is the text of the place that the segments of the path lead to from the
directory. -/
theorem normalizePath_eq (hcontext : contextPath.head? = some '/') (hpath : path ≠ []) :
    normalizePath tagName contextPath path slashManagement =
      written tagName path (endsWithSlash slashManagement path)
        (resolve '.' (directory contextPath path) (segments '/' path)) := by
  have hmap : ∀ o, (written tagName path true o).map (manageSlash slashManagement path) =
      written tagName path (endsWithSlash slashManagement path) o := by
    intro o
    cases o with
    | none => rfl
    | some next => exact congrArg Except.ok manageSlash_render
  unfold normalizePath
  rw [if_neg (not_not.mpr hcontext), ← hmap]
  dsimp only
  refine congrArg _ ?_
  cases path with
  | nil => exact absurd rfl hpath
  | cons c rest =>
    by_cases hc : c = '/'
    · subst hc
      have hroot : directory contextPath ('/' :: rest) = [] := if_pos rfl
      rw [hroot, segments_sep_cons, resolve, enter_stay _ (.inl rfl), Option.bind_some,
        ← readSegments_render (by simp)]
      rfl
    · have hstart : directory contextPath (c :: rest) = (segments '/' contextPath).tail.dropLast :=
        if_neg (by simpa using hc)
      rw [← readSegments_render (fun _ => notMem_of_mem_directory), hstart,
        ← contextDirectory_eq hcontext]
      split
      · contradiction
      · rename_i heq
        exact absurd (cons.inj heq).1 hc
      · rfl

section Main

theorem endsWithSlash_render (hproper : ∀ t ∈ place, t ≠ [] ∧ '/' ∉ t) :
    endsWithSlash slashManagement (render '/' place (endsWithSlash slashManagement path)) =
      endsWithSlash slashManagement path := by
  by_cases hleave : slashManagement = idSlashMgmtLeave
  · have hlast : ∀ p : JString, endsWithSlash slashManagement p = decide (p.getLast? = some '/') :=
      fun p => if_pos hleave
    rw [hlast (render _ _ _), Bool.eq_iff_iff, decide_eq_true_iff]
    exact getLast?_render hproper
  · unfold endsWithSlash
    rw [if_neg hleave, if_neg hleave]

theorem normalizePath_render (hsep : ∀ t ∈ place, '/' ∉ t) (hproper : ∀ t ∈ place, Proper '.' t)
    (hcontext : contextPath.head? = some '/')
    (hne : render '/' place (endsWithSlash slashManagement path) ≠ []) :
    normalizePath tagName contextPath (render '/' place (endsWithSlash slashManagement path))
      slashManagement = .ok (render '/' place (endsWithSlash slashManagement path)) := by
  have hroot : directory contextPath (render '/' place (endsWithSlash slashManagement path)) = [] :=
    if_pos (head?_render hne)
  rw [normalizePath_eq hcontext hne, hroot, resolve_render hsep hproper,
    endsWithSlash_render fun t ht => ⟨(hproper t ht).nonempty, hsep t ht⟩]
  rfl

variable (tagName contextPath path slashManagement)

/-- What `normalizePath` should give: the text of the place, which is empty for the root without a
slash at its end; with no improper segment from the context directory, it is a normal path. -/
structure Normalised (place : List JString) (result : JString) : Prop where
  resolved : resolve '.' (directory contextPath path) (segments '/' path) = some place
  text : result = render '/' place (endsWithSlash slashManagement path)
  root : result = [] ↔ place = [] ∧ endsWithSlash slashManagement path = false
  head : result ≠ [] → result.head? = some '/'
  proper : (∀ s ∈ place, s ∈ directory contextPath path → Proper '.' s) → ∀ s ∈ place, Proper '.' s
  segments : (∀ s ∈ place, Proper '.' s) →
    segments '/' result =
      [] :: (place ++ if endsWithSlash slashManagement path then [[]] else [])
  last : (∀ s ∈ place, Proper '.' s) →
    (result.getLast? = some '/' ↔ endsWithSlash slashManagement path = true)
  again : (∀ s ∈ place, Proper '.' s) → result ≠ [] → ∀ contextPath' : JString,
    contextPath'.head? = some '/' →
      normalizePath tagName contextPath' result slashManagement = .ok result

/-- **Normalised paths.**  Nothing is returned exactly when the path climbs above the root, and what
is returned is normalised. -/
theorem normalizePath_spec (hcontext : contextPath.head? = some '/') (hpath : path ≠ []) :
    ((∃ e, normalizePath tagName contextPath path slashManagement = .error e) ↔
        Climbs '.' (directory contextPath path) (segments '/' path)) ∧
      ∀ result, normalizePath tagName contextPath path slashManagement = .ok result →
        ∃ place, Normalised tagName contextPath path slashManagement place result := by
  rw [normalizePath_eq hcontext hpath, ← resolve_eq_none_iff]
  cases hplace : resolve '.' (directory contextPath path) (segments '/' path) with
  | none => exact ⟨⟨fun _ => rfl, fun _ => ⟨_, rfl⟩⟩, fun result h => by cases h⟩
  | some place =>
    refine ⟨⟨fun ⟨e, he⟩ => (by cases he), fun h => by cases h⟩, fun result hresult => ?_⟩
    obtain rfl := Except.ok.inj hresult
    have hsep : ∀ t ∈ place, '/' ∉ t := by
      intro t ht
      rcases mem_of_resolve hplace ht with h | ⟨h, -⟩
      · exact notMem_of_mem_directory h
      · exact notMem_of_mem_segments h
    refine ⟨place, ?_⟩
    exact {
      resolved := hplace
      text := rfl
      root := render_eq_nil_iff
      head := head?_render
      proper := fun h t ht => (mem_of_resolve hplace ht).elim (h t ht) (·.2)
      segments := fun _ => segments_render hsep _
      last := fun h => getLast?_render fun t ht => ⟨(h t ht).nonempty, hsep t ht⟩
      again := fun h hne contextPath' hcontext' => normalizePath_render hsep h hcontext' hne }

end Main

theorem normalizePath_up :
    ((∃ e, normalizePath ['p'] ['/', 'a', '/', 'b'] ['.', '.', '/', 'c'] idSlashMgmtLeave = .error e) ↔
        Climbs '.' (directory ['/', 'a', '/', 'b'] ['.', '.', '/', 'c'])
          (segments '/' ['.', '.', '/', 'c'])) ∧
      ∀ result,
        normalizePath ['p'] ['/', 'a', '/', 'b'] ['.', '.', '/', 'c'] idSlashMgmtLeave = .ok result →
          ∃ place, Normalised ['p'] ['/', 'a', '/', 'b'] ['.', '.', '/', 'c'] idSlashMgmtLeave place
            result :=
  normalizePath_spec ['p'] ['/', 'a', '/', 'b'] ['.', '.', '/', 'c'] idSlashMgmtLeave rfl (by decide)

/-- The root without a slash at its end is the empty path, and an empty segment of the context
directory is kept. -/
theorem empty_root :
    (¬ ∀ tagName contextPath path slashManagement result, contextPath.head? = some '/' → path ≠ [] →
      normalizePath tagName contextPath path slashManagement = .ok result →
        result.head? = some '/') ∧
      ¬ ∀ tagName contextPath path slashManagement result, contextPath.head? = some '/' → path ≠ [] →
        normalizePath tagName contextPath path slashManagement = .ok result → result ≠ [] →
          [] ∉ (segments '/' result).tail.dropLast := by
  constructor
  · intro h
    have hroot : normalizePath ['p'] ['/'] ['.'] idSlashMgmtLeave = .ok [] := by
      rw [normalizePath_eq rfl (by decide)]
      rfl
    exact absurd (h _ _ _ _ _ rfl (by decide) hroot) (by decide)
  · intro h
    have hkept : normalizePath ['p'] ['/', '/', 'a'] ['b'] idSlashMgmtLeave =
        .ok ['/', '/', 'b'] := by
      rw [normalizePath_eq rfl (by decide)]
      rfl
    exact h _ _ _ _ _ rfl (by decide) hkept (by decide) (by decide)

end SclResource

end Ong.Scl
