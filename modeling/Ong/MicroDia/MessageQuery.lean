import Ong.MicroDia.Message

/-!
# The query of a request, with the requesting entity in it

The entity is sent as the last part of the query, behind a key.  On the receiving side a part with
the key belongs to the entity, and the others are the query.  Both come back as they were unless the
query has a separator at its ends, one of its parts has the key, or the entity has a separator.

## Main results

* `splitParts_iff`: the queries and entities that come back as they were
-/

namespace Ong.MicroDia

open Pieces List

/-- The key of the requesting entity. -/
def queryKey : List UInt8 := bytes "RequestingEntity="

/-- The query that is sent, without regard to its size. -/
def withEntity (query entity : List UInt8) : List UInt8 :=
  if entity = [] then query
  else if query = [] then queryKey ++ entity
  else query ++ 38 :: (queryKey ++ entity)

/-- One part of the query read, into the query and the entity. -/
def splitPart (st : List UInt8 × List UInt8) (part : List UInt8) : List UInt8 × List UInt8 :=
  if queryKey.isPrefixOf part then (st.1, st.2 ++ part.drop 17) else (glue 38 st.1 part, st.2)

variable {query entity part : List UInt8} {parts : List (List UInt8)}
  {st : List UInt8 × List UInt8}

theorem length_queryKey : queryKey.length = 17 := by decide

theorem notMem_queryKey : (38 : UInt8) ∉ queryKey := by decide

theorem sentQuery_eq (h : (withEntity query entity).length ≤ coapQuerySize) :
    sentQuery query entity = withEntity query entity := by
  unfold sentQuery withEntity at *
  by_cases he : entity = []
  · rw [if_pos he, if_pos he]
  · rw [if_neg he] at h ⊢
    rw [if_neg he]
    by_cases hq : query = []
    · rw [if_pos hq] at h ⊢
      have hk : protected_strcat query (bytes "RequestingEntity=") coapQuerySize = queryKey := by
        rw [hq]
        rfl
      rw [length_append, length_queryKey] at h
      simp only [if_pos hq, hk]
      rw [protected_strcat, take_of_length_le (by rw [length_queryKey]; omega)]
    · rw [if_neg hq] at h ⊢
      simp only [length_append, length_cons, length_queryKey] at h
      have h1 : protected_strcat query [38] coapQuerySize = query ++ [38] := by
        rw [protected_strcat, take_of_length_le (by rw [length_singleton]; omega)]
      have h2 : protected_strcat (query ++ [38]) queryKey coapQuerySize =
          query ++ [38] ++ queryKey := by
        rw [protected_strcat, take_of_length_le]
        rw [length_queryKey, length_append, length_singleton]
        omega
      simp only [if_neg hq, h1]
      rw [show bytes "RequestingEntity=" = queryKey from rfl, h2, protected_strcat,
        take_of_length_le]
      · simp
      · simp only [length_append, length_singleton, length_queryKey]
        omega

theorem foldl_splitPart_of_not (h : ∀ part ∈ parts, queryKey.isPrefixOf part = false) :
    parts.foldl splitPart st = (parts.foldl (glue 38) st.1, st.2) := by
  induction parts generalizing st with
  | nil => rfl
  | cons part parts ih =>
    have hpart : splitPart st part = (glue 38 st.1 part, st.2) := by
      rw [splitPart, h part mem_cons_self, if_neg Bool.false_ne_true]
    rw [foldl_cons, foldl_cons, hpart]
    exact ih fun p hp => h p (mem_cons_of_mem _ hp)

theorem notMem_foldl_splitPart (h : ∀ part ∈ parts, (38 : UInt8) ∉ part) (hst : (38 : UInt8) ∉ st.2) :
    (38 : UInt8) ∉ (parts.foldl splitPart st).2 := by
  induction parts generalizing st with
  | nil => exact hst
  | cons part parts ih =>
    refine ih (fun p hp => h p (mem_cons_of_mem _ hp)) ?_
    unfold splitPart
    split
    · refine fun hmem => ?_
      rcases mem_append.mp hmem with hmem | hmem
      · exact hst hmem
      · exact h part mem_cons_self (mem_of_mem_drop hmem)
    · exact hst

theorem weight_splitPart_le (st : List UInt8 × List UInt8) (part : List UInt8) :
    weight (splitPart st part).1 ≤ weight st.1 + (part.length + 1) := by
  unfold splitPart
  split
  · exact Nat.le_add_right _ _
  · exact weight_glue_le 38 st.1 part

theorem length_splitPart_le (st : List UInt8 × List UInt8) (part : List UInt8) :
    (splitPart st part).2.length ≤ st.2.length + part.length := by
  unfold splitPart
  split
  · rw [length_append, length_drop]
    omega
  · exact Nat.le_add_right _ _

theorem weight_foldl_splitPart_le :
    weight (parts.foldl splitPart st).1 ≤ weight st.1 +
      ((parts.filter fun part => !queryKey.isPrefixOf part).map (·.length + 1)).sum := by
  induction parts generalizing st with
  | nil => simp
  | cons part parts ih =>
    refine Nat.le_trans (@ih (splitPart st part)) ?_
    cases hk : queryKey.isPrefixOf part with
    | true =>
      have hpart : (splitPart st part).1 = st.1 := by rw [splitPart, if_pos hk]
      rw [filter_cons_of_neg (by rw [hk]; decide), hpart]
    | false =>
      rw [filter_cons_of_pos (by rw [hk]; rfl), map_cons, sum_cons]
      have hpart := weight_splitPart_le st part
      omega

/-- The conditions on a query and an entity that travel in one text. -/
structure Separable (query entity : List UInt8) : Prop where
  head : query.head? ≠ some 38
  last : entity = [] → query.getLast? ≠ some 38
  parts : ∀ part ∈ segments 38 query, queryKey.isPrefixOf part = false
  entity : 38 ∉ entity

theorem separable_nil (h : (38 : UInt8) ∉ entity) : Separable [] entity where
  head := Option.some_ne_none _ ∘ Eq.symm
  last := fun _ => Option.some_ne_none _ ∘ Eq.symm
  parts := by decide
  entity := h

theorem isPrefixOf_key_append (s : List UInt8) : queryKey.isPrefixOf (queryKey ++ s) = true := by
  rw [List.isPrefixOf_iff_prefix]
  exact prefix_append _ _

theorem segments_withEntity (hentity : (38 : UInt8) ∉ entity) (he : entity ≠ []) :
    trim (segments 38 (withEntity query entity)) =
      (if query = [] then [] else segments 38 query) ++ [queryKey ++ entity] := by
  have hkey : (38 : UInt8) ∉ queryKey ++ entity := by
    rw [mem_append, not_or]
    exact ⟨notMem_queryKey, hentity⟩
  have hne : queryKey ++ entity ≠ [] := append_ne_nil_of_right_ne_nil _ he
  have hlast : ∀ ps : List (List UInt8), trim (ps ++ [queryKey ++ entity]) =
      ps ++ [queryKey ++ entity] := by
    intro ps
    rw [trim, getLast?_append, getLast?_singleton, Option.some_or,
      if_neg fun h => hne (Option.some.inj h)]
  unfold withEntity
  rw [if_neg he]
  by_cases hq : query = []
  · rw [if_pos hq, if_pos hq, segments_of_notMem hkey]
    exact hlast []
  · rw [if_neg hq, if_neg hq, segments_append, segments_of_notMem hkey]
    exact hlast _

theorem sum_filter_add_le {ps : List (List UInt8)} (hpart : part ∈ ps)
    (hkey : queryKey.isPrefixOf part = true) :
    ((ps.filter fun p => !queryKey.isPrefixOf p).map (·.length + 1)).sum + 18 ≤
      (ps.map (·.length + 1)).sum := by
  have hlen : 17 ≤ part.length := by
    exact (List.isPrefixOf_iff_prefix.mp hkey).length_le
  obtain ⟨qs, rs, rfl⟩ := append_of_mem hpart
  have hqs := sum_length_le_of_sublist (qs.filter_sublist (p := fun p => !queryKey.isPrefixOf p))
  have hrs := sum_length_le_of_sublist (rs.filter_sublist (p := fun p => !queryKey.isPrefixOf p))
  rw [filter_append, filter_cons_of_neg (by rw [hkey]; decide), map_append,
    sum_append, map_append, sum_append, map_cons, sum_cons]
  omega

/-- **No part has the key** if the query comes out of its parts as it was: a part with the key would
go to the entity. -/
theorem notKey_of_foldl {ps : List (List UInt8)} (hsub : ps.Sublist (segments 38 query))
    (h : (ps.foldl splitPart ([], [])).1 = query) :
    ∀ part ∈ segments 38 query, queryKey.isPrefixOf part = false := by
  intro part hpart
  by_contra hkey
  have hlt := sum_filter_add_le hpart (eq_true_of_ne_false hkey)
  have hle := sum_length_le_of_sublist (hsub.filter fun p => !queryKey.isPrefixOf p)
  have hweight := @weight_foldl_splitPart_le ps ([], [])
  rw [h] at hweight
  rw [sum_length_segments] at hlt
  by_cases hq : query = []
  · rw [hq, length_nil] at hlt
    omega
  · have hself : weight query = query.length + 1 := if_neg hq
    have hnil : weight (([], []) : List UInt8 × List UInt8).1 = 0 := weight_nil
    omega

theorem splitPart_key (st : List UInt8 × List UInt8) (entity : List UInt8) :
    splitPart st (queryKey ++ entity) = (st.1, st.2 ++ entity) := by
  rfl

theorem dropWhile_sep_iff (s : List UInt8) : s.dropWhile (· = 38) = s ↔ s.head? ≠ some 38 := by
  cases s <;> simp

theorem foldl_splitPart_withEntity_iff (hentity : (38 : UInt8) ∉ entity) (he : entity ≠ []) :
    (trim (segments 38 (withEntity query entity))).foldl splitPart ([], []) = (query, entity) ↔
      query.head? ≠ some 38 ∧ ∀ part ∈ segments 38 query, queryKey.isPrefixOf part = false := by
  rw [segments_withEntity hentity he, foldl_append, foldl_cons, foldl_nil,
    splitPart_key]
  by_cases hq : query = []
  · subst hq
    refine ⟨fun _ => ⟨Option.some_ne_none _ ∘ Eq.symm, fun part hpart => ?_⟩, fun _ => rfl⟩
    rw [mem_singleton.mp hpart]
    rfl
  · rw [if_neg hq]
    constructor
    · intro h
      have hkeys := notKey_of_foldl (Sublist.refl _) (Prod.ext_iff.mp h).1
      rw [foldl_splitPart_of_not hkeys, foldl_glue_segments] at h
      exact ⟨(dropWhile_sep_iff query).mp (Prod.ext_iff.mp h).1, hkeys⟩
    · rintro ⟨hhead, hkeys⟩
      rw [foldl_splitPart_of_not hkeys, foldl_glue_segments, (dropWhile_sep_iff query).mpr hhead]
      rfl

/-- **The queries and entities that come back as they were.** -/
theorem splitParts_iff {n : Nat} (hcount : (withEntity query entity).count 38 ≤ n) :
    (cut 38 n (withEntity query entity)).foldl splitPart ([], []) = (query, entity) ↔
      Separable query entity := by
  by_cases he : entity = []
  · subst he
    have hsent : withEntity query [] = query := if_pos rfl
    rw [hsent] at hcount ⊢
    have hglue := foldl_glue_cut_iff hcount
    constructor
    · intro h
      have hsub := cut_sublist hcount
      have hkeys := notKey_of_foldl hsub (Prod.ext_iff.mp h).1
      rw [foldl_splitPart_of_not fun p hp => hkeys p (hsub.subset hp)] at h
      obtain ⟨hhead, hlast⟩ := hglue.mp (Prod.ext_iff.mp h).1
      exact ⟨hhead, fun _ => hlast, hkeys, not_mem_nil⟩
    · intro h
      rw [foldl_splitPart_of_not, hglue.mpr ⟨h.head, h.last rfl⟩]
      exact fun p hp => h.parts p ((cut_sublist hcount).subset hp)
  · rw [cut_eq_trim hcount]
    constructor
    · intro h
      have hentity : (38 : UInt8) ∉ entity := by
        have := @notMem_foldl_splitPart (trim (segments 38 (withEntity query entity))) ([], [])
          (fun p hp => notMem_of_mem_segments ((trim_sublist _).subset hp)) not_mem_nil
        rwa [h] at this
      obtain ⟨hhead, hkeys⟩ := (foldl_splitPart_withEntity_iff hentity he).mp h
      exact ⟨hhead, fun hnil => absurd hnil he, hkeys, hentity⟩
    · intro h
      exact (foldl_splitPart_withEntity_iff h.entity he).mpr ⟨h.head, h.parts⟩

end Ong.MicroDia
