import Ong.Azap.AttributeLists

/-!
# What the parsers of attribute lists accept

A parser is exact when it reads nothing outside the payload, refuses a payload that is not a list of
complete records, and lists the records of one that is, with both passes going from record to record
alike.

## Main results

* `exact_iff`: a parser is exact for a payload exactly under the condition
-/

namespace Ong.Azap

open Records UInt8 List

section General

variable {ρ : Type} (count : UInt8 → Except Fault (Option UInt8))
  (fill : Cursor → Except Fault (ρ × Cursor)) (view : ρ → ρ) (next : Nat → Option (ρ × Nat))
  (size : Nat) (detected agrees : Nat → Prop)

/-- What the steps of the two passes do: `detected` says which incomplete records the first pass
refuses, `agrees` on which complete records the passes end at the same place, and `view` leaves of
what is filled in what applies to the record. -/
structure Passes : Prop where
  small : size ≤ 235
  progress : ∀ p r q, next p = some (r, q) → p < q ∧ q ≤ size
  count_record : ∀ p r q, next p = some (r, q) →
    count (UInt8.ofNat p) = .ok (some (UInt8.ofNat q))
  count_detected : ∀ p, p < size → next p = none → detected p → count (UInt8.ofNat p) = .ok none
  count_broken : ∀ p, p < size → next p = none → ¬ detected p →
    (∃ e, count (UInt8.ofNat p) = .error e) ∨
      ∃ q, count (UInt8.ofNat p) = .ok (some q) ∧ size ≤ q.toNat
  fill_record : ∀ p r q, next p = some (r, q) → agrees p →
    ∃ r', fill ⟨p, UInt8.ofNat (size - p)⟩ = .ok (r', ⟨q, UInt8.ofNat (size - q)⟩) ∧ view r' = r
  fill_differs : ∀ p r q, next p = some (r, q) → ¬ agrees p →
    (∃ e, fill ⟨p, UInt8.ofNat (size - p)⟩ = .error e) ∨
      ∃ r' c, fill ⟨p, UInt8.ofNat (size - p)⟩ = .ok (r', c) ∧ c.data ≠ q

/-- The parser reads nothing outside the payload, returns a list if the payload is one of complete
records and only then, and lists these records; both passes end each record at the same place. -/
def Exact (parsed : Except Fault (Option (AttrList ρ))) : Prop :=
  ∃ result, parsed = .ok result ∧ (result.isSome = true ↔ ∃ rs, Cut next 0 rs size) ∧
    ∀ l ∈ result, l.filled = l.counted ∧
      ∀ rs, Cut next 0 rs size → l.attrList.map view = rs.map (·.2.1)

/-- The passes agree on the records of a complete payload; of another one the first pass refuses
what is left. -/
def Condition : Prop :=
  ∃ rs e, Cut next 0 rs e ∧ (e = size → ∀ x ∈ rs, agrees x.1) ∧ (e ≠ size → detected e)

variable {count fill view next size detected agrees} {p e fuel : Nat} {rs : List (Nat × ρ × Nat)}

theorem toNat_ofNat (h : p ≤ 255) : (ofNat p).toNat = p := by
  rw [toNat_ofNat']
  omega

theorem ofNat_lt_ofNat {q : Nat} (hp : p ≤ 255) (hq : q ≤ 255) :
    ofNat p < ofNat q ↔ p < q := by
  rw [UInt8.lt_iff_toNat_lt, toNat_ofNat hp, toNat_ofNat hq]

section

variable (h : Passes count fill view next size detected agrees)

include h

theorem countLoop_cut (hcut : Cut next p rs e) (hp : p ≤ size) (hfuel : rs.length + 1 < fuel) :
    (e = size → countLoop count (ofNat size) fuel (ofNat p) =
        .ok (some (rs.map (·.2.2)))) ∧
      (e ≠ size → detected e →
        countLoop count (ofNat size) fuel (ofNat p) = .ok none) ∧
      (e ≠ size → ¬ detected e →
        (∃ x, countLoop count (ofNat size) fuel (ofNat p) = .error x) ∨
          ∃ l, countLoop count (ofNat size) fuel (ofNat p) = .ok (some l)) := by
  have hsmall := h.small
  induction hcut generalizing fuel with
  | @done p hnone =>
    obtain ⟨fuel, rfl⟩ : ∃ k, fuel = k + 2 := ⟨fuel - 2, by omega⟩
    have hlt := ofNat_lt_ofNat (p := p) (q := size) (by omega) (by omega)
    rw [countLoop]
    refine ⟨?_, ?_, ?_⟩
    · rintro rfl
      rw [if_neg (mt hlt.mp (Nat.lt_irrefl _))]
      rfl
    · intro hne hdetected
      rw [if_pos (hlt.mpr (by omega)), h.count_detected p (by omega) hnone hdetected]
    · intro hne hdetected
      rw [if_pos (hlt.mpr (by omega))]
      rcases h.count_broken p (by omega) hnone hdetected with ⟨x, hx⟩ | ⟨q, hq, hle⟩
      · rw [hx]
        exact .inl ⟨x, rfl⟩
      · have hnot : ¬ q < ofNat size := by
          rw [UInt8.lt_iff_toNat_lt, toNat_ofNat (by omega)]
          omega
        rw [hq]
        dsimp only
        rw [countLoop, if_neg hnot]
        exact .inr ⟨_, rfl⟩
  | @more p q e r rs hsome hrest ih =>
    obtain ⟨fuel, rfl⟩ : ∃ k, fuel = k + 1 := ⟨fuel - 1, by omega⟩
    rw [length_cons] at hfuel
    obtain ⟨hlt, hle⟩ := h.progress _ _ _ hsome
    obtain ⟨hall, hdet, hbroken⟩ := ih hle (show rs.length + 1 < fuel by omega)
    rw [countLoop, if_pos ((ofNat_lt_ofNat (by omega) (by omega)).mpr (by omega)),
      h.count_record _ _ _ hsome]
    dsimp only
    refine ⟨fun he => ?_, fun he hd => ?_, fun he hd => ?_⟩
    · rw [hall he, toNat_ofNat (by omega)]
      rfl
    · rw [hdet he hd]
      rfl
    · rcases hbroken he hd with ⟨x, hx⟩ | ⟨l, hl⟩
      · exact .inl ⟨x, by rw [hx]; rfl⟩
      · exact .inr ⟨q :: l, by rw [hl, toNat_ofNat (by omega)]; rfl⟩

theorem fillLoop_cut (hcut : Cut next p rs e) (he : e = size) :
    ((∀ x ∈ rs, agrees x.1) → ∃ l, fillLoop fill rs.length ⟨p, ofNat (size - p)⟩ = .ok l ∧
        l.map (·.2) = rs.map (·.2.2) ∧ l.map (fun x => view x.1) = rs.map (·.2.1)) ∧
      (¬ (∀ x ∈ rs, agrees x.1) →
        ∀ l, fillLoop fill rs.length ⟨p, ofNat (size - p)⟩ = .ok l →
          l.map (·.2) ≠ rs.map (·.2.2)) := by
  have hsmall := h.small
  induction hcut with
  | done => exact ⟨fun _ => ⟨[], rfl, rfl, rfl⟩, fun hnot => absurd (by simp) hnot⟩
  | @more p q e r rs hsome hrest ih =>
    obtain ⟨hlt, hle⟩ := h.progress _ _ _ hsome
    obtain ⟨hagree, hdiffer⟩ := ih he
    have hpos : (0 : UInt8) < ofNat (size - p) := by
      rw [UInt8.lt_iff_toNat_lt, toNat_ofNat (by omega), UInt8.toNat_zero]
      omega
    simp only [length_cons, fillLoop, if_pos hpos]
    rw [forall_mem_cons]
    constructor
    · rintro ⟨hhead, htail⟩
      obtain ⟨r', hfill, hview⟩ := h.fill_record _ _ _ hsome hhead
      obtain ⟨l, hl, hends, hrecords⟩ := hagree htail
      refine ⟨(r', q) :: l, ?_, ?_, ?_⟩
      · rw [hfill]
        simp only [Except.bind, hl]
        rfl
      · rw [map_cons, map_cons, hends]
      · rw [map_cons, map_cons, hrecords, hview]
    · intro hnot l hl
      by_cases hhead : agrees p
      · obtain ⟨r', hfill, -⟩ := h.fill_record _ _ _ hsome hhead
        rw [hfill] at hl
        simp only [Except.bind] at hl
        cases hloop : fillLoop fill rs.length ⟨q, ofNat (size - q)⟩ with
        | error x =>
          rw [hloop] at hl
          cases hl
        | ok l' =>
          rw [hloop] at hl
          obtain rfl := Except.ok.inj hl
          have hne := hdiffer (fun htail => hnot ⟨hhead, htail⟩) l' hloop
          exact fun heq => hne (cons.inj heq).2
      · rcases h.fill_differs _ _ _ hsome hhead with ⟨x, hx⟩ | ⟨r', c, hc, hne⟩
        · rw [hx] at hl
          cases hl
        · rw [hc] at hl
          simp only [Except.bind] at hl
          cases hloop : fillLoop fill rs.length c with
          | error x =>
            rw [hloop] at hl
            cases hl
          | ok l' =>
            rw [hloop] at hl
            obtain rfl := Except.ok.inj hl
            exact fun heq => hne (cons.inj heq).1

theorem exact_iff_of_complete (hcut : Cut next 0 rs size) :
    Exact view next size (parseAttrList count fill (ofNat size)) ↔
      ∀ x ∈ rs, agrees x.1 := by
  have hsmall := h.small
  have hlength := hcut.length_le h.progress
  have hcounted : (rs.map (·.2.2)).length = rs.length := length_map _
  obtain ⟨hall, -, -⟩ := countLoop_cut h hcut (Nat.zero_le _) (show rs.length + 1 < 256 by omega)
  obtain ⟨hagree, hdiffer⟩ := fillLoop_cut h hcut rfl
  rw [Nat.sub_zero] at hagree hdiffer
  have hzero : ofNat 0 = 0 := rfl
  rw [hzero] at hall
  unfold Exact parseAttrList
  rw [hall rfl]
  dsimp only
  rw [hcounted, toNat_ofNat (by omega)]
  constructor
  · rintro ⟨result, hresult, -, hlist⟩
    by_contra hnot
    cases hloop : fillLoop fill rs.length ⟨0, ofNat size⟩ with
    | error x =>
      rw [hloop] at hresult
      cases hresult
    | ok l =>
      rw [hloop] at hresult
      obtain rfl := Except.ok.inj hresult
      exact hdiffer hnot l hloop (hlist _ rfl).1
  · intro hagrees
    obtain ⟨l, hl, hends, hrecords⟩ := hagree hagrees
    refine ⟨_, by rw [hl]; rfl, iff_of_true rfl ⟨rs, hcut⟩, ?_⟩
    intro l' hl'
    obtain rfl := Option.some.inj hl'
    refine ⟨hends, fun rs' hcut' => ?_⟩
    obtain ⟨rfl, -⟩ := hcut.unique hcut'
    rw [← hrecords, map_map]
    rfl

theorem exact_iff_of_incomplete (hcut : Cut next 0 rs e) (he : e ≠ size) :
    Exact view next size (parseAttrList count fill (ofNat size)) ↔ detected e := by
  have hsmall := h.small
  have hlength := hcut.length_le h.progress
  obtain ⟨-, hdetected, hbroken⟩ := countLoop_cut h hcut (Nat.zero_le _)
    (show rs.length + 1 < 256 by omega)
  have hzero : ofNat 0 = 0 := rfl
  rw [hzero] at hdetected hbroken
  have hnone : ¬ ∃ rs, Cut next 0 rs size := fun ⟨_, hcut'⟩ => he (hcut.unique hcut').2
  unfold Exact parseAttrList
  constructor
  · rintro ⟨result, hresult, hsome, -⟩
    by_contra hnot
    rcases hbroken he hnot with ⟨x, hx⟩ | ⟨l, hl⟩
    · rw [hx] at hresult
      cases hresult
    · rw [hl] at hresult
      dsimp only at hresult
      cases hloop : fillLoop fill (ofNat l.length).toNat ⟨0, ofNat size⟩ with
      | error x =>
        rw [hloop] at hresult
        cases hresult
      | ok l' =>
        rw [hloop] at hresult
        obtain rfl := Except.ok.inj hresult
        exact hnone (hsome.mp rfl)
  · intro hdet
    rw [hdetected he hdet]
    exact ⟨none, rfl, iff_of_false Bool.false_ne_true hnone, nofun⟩

/-- **A parser with two passes is exact** exactly when the passes agree on the records, or the first
one refuses what is left. -/
theorem exact_iff :
    Exact view next size (parseAttrList count fill (ofNat size)) ↔
      Condition next size detected agrees := by
  obtain ⟨rs, e, hcut, -, -⟩ := exists_cut h.progress (Nat.zero_le size)
  have hcondition : Condition next size detected agrees ↔
      (e = size → ∀ x ∈ rs, agrees x.1) ∧ (e ≠ size → detected e) := by
    constructor
    · rintro ⟨rs', e', hcut', hcond⟩
      obtain ⟨rfl, rfl⟩ := hcut.unique hcut'
      exact hcond
    · exact fun hcond => ⟨rs, e, hcut, hcond⟩
  rw [hcondition]
  by_cases he : e = size
  · obtain rfl := he
    rw [exact_iff_of_complete h hcut]
    exact ⟨fun hagrees => ⟨fun _ => hagrees, fun hne => absurd rfl hne⟩, fun hcond => hcond.1 rfl⟩
  · rw [exact_iff_of_incomplete h hcut he]
    exact ⟨fun hdet => ⟨fun heq => absurd heq he, fun _ => hdet⟩, fun hcond => hcond.2 he⟩

end

end General

end Ong.Azap
