import Mathlib

/-!
# The longest prefix in a sorted set

The longest key that is a proper prefix of a text is looked for among sorted keys: the last key
before the text is taken, and if it is no prefix, the search goes on with what the two have in
common and a separator.  The order of the texts is that of the ranks of their characters.

## Main definitions

* `commonPart`: what two texts have in common, before one of them ends
* `search`: the loop, for at most so many rounds
* `IsLongest`: what is looked for
* `Undercuts`: a key that keeps the loop going round

## Main results

* `search_spec`: what the loop finds
* `exists_search`: without a key that undercuts the text the loop ends
-/

namespace Ong.PrefixSearch

open List

variable {α ρ : Type*}

section Order

variable [LinearOrder ρ]

/-- The order of the texts. -/
def Before (rank : α → ρ) (k w : List α) : Prop := k.map rank < w.map rank

/-- A key that is a prefix of the text, and not all of it. -/
def ProperPrefix (k w : List α) : Prop := k <+: w ∧ k ≠ w

variable {rank : α → ρ} {keys : List (List α)} {k k' w c l r : List α} {a b x y sep : α}

theorem before_cons : Before rank (a :: k) (b :: w) ↔
    rank a < rank b ∨ rank a = rank b ∧ Before rank k w := by
  rw [Before, map_cons, map_cons, cons_lt_cons_iff]
  rfl

theorem before_append (c : List α) : Before rank (c ++ k) (c ++ w) ↔ Before rank k w := by
  induction c with
  | nil => rfl
  | cons a c ih =>
    rw [cons_append, cons_append, before_cons, ih]
    exact ⟨fun h => h.elim (fun hlt => absurd hlt (lt_irrefl _)) And.right, fun h => .inr ⟨rfl, h⟩⟩

theorem before_of_rank_lt (h : rank x < rank y) : Before rank (c ++ x :: l) (c ++ y :: r) :=
  (before_append c).mpr (before_cons.mpr (.inl h))

theorem not_before_nil : ¬Before rank k [] := not_lt_nil _

theorem before_of_properPrefix (h : ProperPrefix k w) : Before rank k w := by
  obtain ⟨⟨r, rfl⟩, hne⟩ := h
  cases r with
  | nil => exact absurd (append_nil k).symm hne
  | cons b r =>
    have happend : Before rank (k ++ []) (k ++ b :: r) :=
      (before_append k).mpr (nil_lt_cons _ _)
    rwa [append_nil] at happend

theorem exists_difference (hrank : Function.Injective rank) (h : Before rank k w)
    (hpre : ¬k <+: w) : ∃ c x y l r, k = c ++ x :: l ∧ w = c ++ y :: r ∧ rank x < rank y := by
  induction k generalizing w with
  | nil => exact absurd nil_prefix hpre
  | cons a k ih =>
    cases w with
    | nil => exact absurd h not_before_nil
    | cons b w =>
      rcases before_cons.mp h with hlt | ⟨heq, h'⟩
      · exact ⟨[], a, b, k, w, rfl, rfl, hlt⟩
      · obtain rfl := hrank heq
        obtain ⟨c, x, y, l, r, hk, hw, hlt⟩ := ih h' fun hp =>
          hpre (cons_prefix_cons.mpr ⟨rfl, hp⟩)
        exact ⟨a :: c, x, y, l, r, congrArg _ hk, congrArg _ hw, hlt⟩

theorem prefix_of_between (hrank : Function.Injective rank) (hpre : k' <+: w)
    (hle : ¬Before rank k k') (hlt : Before rank k w) : k' <+: k := by
  by_contra hnot
  have hne : k ≠ k' := fun heq => hnot (heq ▸ prefix_rfl)
  have hbefore : Before rank k' k := by
    rcases lt_trichotomy (k.map rank) (k'.map rank) with h | h | h
    · exact absurd h hle
    · exact absurd (hrank.list_map h) hne
    · exact h
  obtain ⟨c, x, y, l, r, rfl, rfl, hxy⟩ := exists_difference hrank hbefore hnot
  obtain ⟨t, rfl⟩ := hpre
  rw [append_assoc, cons_append] at hlt
  exact lt_asymm (before_of_rank_lt hxy : Before rank (c ++ x :: (l ++ t)) (c ++ y :: r)) hlt

theorem prefix_of_prefix_both (h : k <+: c ++ x :: l) (h' : k <+: c ++ y :: r) (hne : x ≠ y) :
    k <+: c := by
  induction c generalizing k with
  | nil =>
    cases k with
    | nil => exact nil_prefix
    | cons a k => exact absurd ((cons_prefix_cons.mp h).1.symm.trans
        (cons_prefix_cons.mp h').1) hne
  | cons b c ih =>
    cases k with
    | nil => exact nil_prefix
    | cons a k =>
      obtain ⟨rfl, hk⟩ := cons_prefix_cons.mp h
      exact cons_prefix_cons.mpr ⟨rfl, ih hk (cons_prefix_cons.mp h').2⟩

theorem properPrefix_append (h : k <+: c) : ProperPrefix k (c ++ x :: l) := by
  refine ⟨h.trans (prefix_append _ _), fun heq => ?_⟩
  have hlen := h.length_le
  rw [heq, length_append, length_cons] at hlen
  omega

theorem properPrefix_iff (hrank : Function.Injective rank) (hlt : rank x < rank y)
    (hlast : ∀ k' ∈ keys, Before rank k' (c ++ y :: r) → ¬Before rank (c ++ x :: l) k')
    (hk' : k' ∈ keys) : ProperPrefix k' (c ++ y :: r) ↔ ProperPrefix k' (c ++ [sep]) := by
  constructor
  · intro hp
    have hpre := prefix_of_between hrank hp.1 (hlast k' hk' (before_of_properPrefix hp))
      (before_of_rank_lt hlt)
    exact properPrefix_append (prefix_of_prefix_both hpre hp.1 fun heq => hlt.ne (heq ▸ rfl))
  · rintro ⟨hpre, hne⟩
    rcases prefix_concat_iff.mp hpre with heq | hpre
    · exact absurd heq hne
    · exact properPrefix_append hpre

/-- A key before the text, but not before a prefix of it, that differs from the text first in a
character below the separator. -/
def Undercuts (rank : α → ρ) (keys : List (List α)) (sep : α) (w k : List α) : Prop :=
  k ∈ keys ∧ Before rank k w ∧ (∀ k' ∈ keys, ProperPrefix k' w → ¬Before rank k k') ∧
    ∃ c x y l r, k = c ++ x :: l ∧ w = c ++ y :: r ∧ x ≠ y ∧ rank x < rank sep

theorem undercuts_of_next (hrank : Function.Injective rank) (hlt : rank x < rank y)
    (hsep : rank sep ≤ rank x)
    (hgreatest : ∀ k' ∈ keys, Before rank k' (c ++ y :: r) → ¬Before rank (c ++ x :: l) k')
    (h : Undercuts rank keys sep (c ++ [sep]) k) : Undercuts rank keys sep (c ++ y :: r) k := by
  obtain ⟨hk, hbefore, hall, c₁, x₁, y₁, l₁, r₁, hkey, hnext, hne, hbelow⟩ := h
  refine ⟨hk, lt_trans hbefore (before_of_rank_lt (hsep.trans_lt hlt)), fun k' hk' hp =>
    hall k' hk' ((properPrefix_iff hrank hlt hgreatest hk').mp hp), ?_⟩
  rcases r₁.eq_nil_or_concat with rfl | ⟨r₁, z, rfl⟩
  · obtain ⟨rfl, heq⟩ := append_inj' hnext rfl
    refine ⟨c, x₁, y, l₁, r, hkey, rfl, fun heq' => ?_, hbelow⟩
    exact absurd (heq' ▸ hbelow) (hsep.trans hlt.le).not_gt
  · rw [concat_eq_append, ← cons_append, ← append_assoc] at hnext
    obtain ⟨rfl, -⟩ := append_inj' hnext rfl
    exact ⟨c₁, x₁, y₁, l₁, r₁ ++ y :: r, hkey, by rw [append_assoc, cons_append], hne,
      hbelow⟩

end Order

section Loop

variable [DecidableEq α] [LinearOrder ρ]

/-- The characters that are the same, up to a difference; there is nothing if a text ends before
one. -/
def commonPart : List α → List α → Option (List α)
  | a :: k, b :: w => if a = b then (commonPart k w).map (a :: ·) else some []
  | _, _ => none

/-- What comes of a loop: it may not have ended yet, or an exception is thrown. -/
inductive Outcome (β : Type*)
  | unfinished
  | thrown
  | returned (b : β)
  deriving DecidableEq

/-- The loop. -/
def search (last : List α → Option (List α)) (sep : α) :
    Nat → List α → Outcome (Option (List α))
  | 0, _ => .unfinished
  | n + 1, w =>
    match last w with
    | none => .returned none
    | some k =>
      if k.isPrefixOf w then .returned (some k)
      else
        match commonPart k w with
        | none => .thrown
        | some c => search last sep n (c ++ [sep])

/-- `last` gives the last key before a text. -/
structure IsLast (rank : α → ρ) (keys : List (List α)) (last : List α → Option (List α)) :
    Prop where
  none : ∀ w, last w = none → ∀ k ∈ keys, ¬Before rank k w
  some : ∀ w k, last w = some k → k ∈ keys ∧ Before rank k w ∧
    ∀ k' ∈ keys, Before rank k' w → ¬Before rank k k'

/-- The longest of the keys that are proper prefixes of the text, if there is one. -/
def IsLongest (keys : List (List α)) (w : List α) : Option (List α) → Prop
  | some k => k ∈ keys ∧ ProperPrefix k w ∧ ∀ k' ∈ keys, ProperPrefix k' w → k' <+: k
  | none => ∀ k ∈ keys, ¬ProperPrefix k w

variable {rank : α → ρ} {keys : List (List α)} {last : List α → Option (List α)} {sep x y : α}
  {w k k' c l r : List α} {n m : Nat} {o : Option (List α)}

theorem commonPart_append (h : x ≠ y) : commonPart (c ++ x :: l) (c ++ y :: r) = some c := by
  induction c with
  | nil => exact if_neg h
  | cons a c ih =>
    rw [cons_append, cons_append, commonPart, if_pos rfl, ih]
    rfl

theorem search_succ (sep : α) (hrank : Function.Injective rank) (hlast : IsLast rank keys last)
    (w : List α) : (∃ o, IsLongest keys w o ∧ ∀ n, search last sep (n + 1) w = .returned o) ∨
      ∃ c x y l r, c ++ x :: l ∈ keys ∧ w = c ++ y :: r ∧ rank x < rank y ∧
        (∀ k' ∈ keys, Before rank k' w → ¬Before rank (c ++ x :: l) k') ∧
        ∀ n, search last sep (n + 1) w = search last sep n (c ++ [sep]) := by
  simp only [search]
  cases hk : last w with
  | none =>
    exact .inl ⟨none, fun k' hk' hp => hlast.none w hk k' hk' (before_of_properPrefix hp),
      fun _ => rfl⟩
  | some k =>
    obtain ⟨hmem, hbefore, hgreatest⟩ := hlast.some w k hk
    by_cases hpre : k <+: w
    · refine .inl ⟨some k, ⟨hmem, ⟨hpre, fun heq => ?_⟩, fun k' hk' hp => ?_⟩,
        fun _ => if_pos (List.isPrefixOf_iff_prefix.mpr hpre)⟩
      · rw [heq] at hbefore
        exact lt_irrefl _ hbefore
      · exact prefix_of_between hrank hp.1 (hgreatest k' hk' (before_of_properPrefix hp)) hbefore
    · obtain ⟨c, x, y, l, r, rfl, rfl, hlt⟩ := exists_difference hrank hbefore hpre
      refine .inr ⟨c, x, y, l, r, hmem, rfl, hlt, hgreatest, fun n => ?_⟩
      dsimp only
      rw [if_neg (mt List.isPrefixOf_iff_prefix.mp hpre),
        commonPart_append fun heq => hlt.ne (congrArg rank heq)]

/-- **What is found** is the longest prefix. -/
theorem search_spec (hrank : Function.Injective rank) (hlast : IsLast rank keys last)
    (h : search last sep n w = .returned o) : IsLongest keys w o := by
  induction n generalizing w with
  | zero => cases h
  | succ n ih =>
    rcases search_succ sep hrank hlast w with ⟨o', hlongest, ho'⟩ |
      ⟨c, x, y, l, r, hmem, rfl, hlt, hgreatest, hnext⟩
    · cases (ho' n).symm.trans h
      exact hlongest
    · have hlongest := ih ((hnext n).symm.trans h)
      have hsame {k' : List α} (hk' : k' ∈ keys) :
          ProperPrefix k' (c ++ y :: r) ↔ ProperPrefix k' (c ++ [sep]) :=
        properPrefix_iff hrank hlt hgreatest hk'
      cases o with
      | some k =>
        obtain ⟨hk, hp, hall⟩ := hlongest
        exact ⟨hk, (hsame hk).mpr hp, fun k' hk' hp' => hall k' hk' ((hsame hk').mp hp')⟩
      | none => exact fun k' hk' hp => hlongest k' hk' ((hsame hk').mp hp)

theorem search_of_le (h : search last sep n w = .returned o) (hle : n ≤ m) :
    search last sep m w = .returned o := by
  induction n generalizing w m with
  | zero => cases h
  | succ n ih =>
    obtain ⟨m, rfl⟩ := Nat.exists_eq_add_of_le' hle
    rw [← Nat.add_assoc]
    rw [search] at h ⊢
    split
    · next hnone =>
      simp only [hnone] at h
      exact h
    · next k hk =>
      simp only [hk] at h
      split
      · next hpre => rwa [if_pos hpre] at h
      · next hpre =>
        rw [if_neg hpre] at h
        split
        · next hcommon =>
          rw [hcommon] at h
          exact h
        · next c hcommon =>
          rw [hcommon] at h
          exact ih h (Nat.le_add_left n m)

/-- **The search ends** for a text that ends with the separator, if no key undercuts it: the texts
become shorter. -/
theorem exists_search (hrank : Function.Injective rank) (hlast : IsLast rank keys last)
    (h : ∀ k, ¬Undercuts rank keys sep (w ++ [sep]) k) :
    ∃ n o, search last sep n (w ++ [sep]) = .returned o := by
  induction hlen : w.length using Nat.strong_induction_on generalizing w with
  | _ m ih =>
  rcases search_succ sep hrank hlast (w ++ [sep]) with ⟨o, -, ho⟩ |
    ⟨c, x, y, l, r, hmem, hw, hlt, hgreatest, hnext⟩
  · exact ⟨1, o, ho 0⟩
  · have hsep : rank sep ≤ rank x := by
      by_contra hbelow
      refine h (c ++ x :: l) ⟨hmem, ?_, fun k' hk' hp => ?_, c, x, y, l, r, rfl, hw,
        fun heq => hlt.ne (congrArg rank heq), not_le.mp hbelow⟩
      · rw [hw]
        exact before_of_rank_lt hlt
      · exact hgreatest k' hk' (before_of_properPrefix hp)
    have hshort : c.length < m := by
      have hlength := congrArg length hw
      rw [length_append, length_append, length_cons, length_cons, hlen,
        length_nil] at hlength
      cases r with
      | nil =>
        obtain ⟨-, heq⟩ := append_inj' hw rfl
        exact absurd hlt (singleton_inj.mp heq ▸ hsep).not_gt
      | cons z r =>
        rw [length_cons] at hlength
        omega
    rw [hw] at h hgreatest
    obtain ⟨n, o, ho⟩ := ih c.length hshort
      (fun k hk => h k (undercuts_of_next hrank hlt hsep hgreatest hk)) rfl
    exact ⟨n + 1, o, (hnext n).trans ho⟩

end Loop

end Ong.PrefixSearch
