import Ong.M2M.AcceptHeader

/-!
# The media type of an answer

The header Accept is a list of media ranges with parameters, of which `q` is the weight.  A media
type has the weight of the most specific range that it matches, and the supported type with the
greatest weight should be the one of the answer.

## Main results

* `getAcceptedMediaType_iff`: when an answer is given, and when it is right for all media types that
  may be supported
-/

namespace Ong.M2M

open List Option

open Util (JavaString StringReader ch javaString isDigit numeral)

variable {D : Type*}

/-! ## Lists of media ranges -/

/-- At most three decimals, as thousandths. -/
def decimals : JavaString → Option Nat
  | [] => some 0
  | c :: ds =>
    if c = ch '.' ∧ ds.length ≤ 3 ∧ ds.all isDigit then some (numeral ds * 10 ^ (3 - ds.length))
    else none

/-- A weight between 0 and 1, as thousandths. -/
def thousandths : JavaString → Option Nat
  | [] => none
  | c :: rest =>
    match decimals rest with
    | none => none
    | some d => if c = ch '0' then some d else if c = ch '1' ∧ d = 0 then some 1000 else none

/-- The characters of tokens. -/
def isTokenChar (c : UInt16) : Bool :=
  decide (ch ' ' < c) && decide (c ≤ ch '~') && !(javaString "()<>@,;:\\\"/[]?=\x7b\x7d").contains c

def Token (s : JavaString) : Prop := s ≠ [] ∧ ∀ c ∈ s, isTokenChar c = true

/-- What stands between quotes. -/
inductive QuotedText : JavaString → Prop
  | nil : QuotedText []
  | char {c : UInt16} {s : JavaString} (hquote : c ≠ ch '"') (hescape : c ≠ ch '\\')
      (h : QuotedText s) : QuotedText (c :: s)
  | escaped {c : UInt16} {s : JavaString} (h : QuotedText s) : QuotedText (ch '\\' :: c :: s)

structure MediaRange where
  range : JavaString
  params : List Param

/-- A type and a subtype, each of them maybe an asterisk. -/
def IsRange (s : JavaString) : Prop := ∃ t u, Token t ∧ Token u ∧ s = t ++ ch '/' :: u

structure IsParam (p : Param) : Prop where
  name : Token p.name
  value : Token p.value ∨ ∃ s, QuotedText s ∧ p.value = ch '"' :: s ++ [ch '"']
  weight : p.name = javaString "q" → (thousandths p.value).isSome

def Spaces (s : JavaString) : Prop := ∀ c ∈ s, c = ch ' '

/-- The parameters, with spaces around everything. -/
inductive WritesParams : List Param → JavaString → Prop
  | nil {s : JavaString} (h : Spaces s) : WritesParams [] s
  | cons {p : Param} {ps : List Param} {s s₁ s₂ s₃ rest : JavaString} (h : Spaces s)
      (h₁ : Spaces s₁) (h₂ : Spaces s₂) (h₃ : Spaces s₃) (hp : IsParam p)
      (hrest : WritesParams ps rest) :
      WritesParams (p :: ps)
        (s ++ ch ';' :: (s₁ ++ (p.name ++ (s₂ ++ ch '=' :: (s₃ ++ (p.value ++ rest))))))

/-- The ranges, with commas between them. -/
inductive Writes : List MediaRange → JavaString → Prop
  | last {m : MediaRange} {s text : JavaString} (h : Spaces s) (hm : IsRange m.range)
      (htext : WritesParams m.params text) : Writes [m] (s ++ (m.range ++ text))
  | cons {m : MediaRange} {ms : List MediaRange} {s text rest : JavaString} (h : Spaces s)
      (hm : IsRange m.range) (htext : WritesParams m.params text) (hrest : Writes ms rest) :
      Writes (m :: ms) (s ++ (m.range ++ (text ++ ch ',' :: rest)))

/-- No value has a space, a comma or a semicolon between its quotes. -/
def Plain (ms : List MediaRange) : Prop :=
  ∀ m ∈ ms, ∀ p ∈ m.params, ∀ c ∈ p.value, acceptStop1.has c = false

/-! ## The answer that should be given -/

/-- The weight so far and that of one more parameter. -/
def weightStep (q : Option Nat) (p : Param) : Option Nat :=
  if p.name = javaString "q" then thousandths p.value else q

/-- The weight among the parameters, 1 if there is none. -/
def weightOfParams (ps : List Param) : Nat := (ps.foldl weightStep none).getD 1000

/-- The weights so far and that of one more range. -/
def putRange (w : Weights Nat) (m : MediaRange) : Weights Nat :=
  w.put m.range (weightOfParams m.params)

/-- The weights of the ranges in thousandths; the last of equal ranges counts. -/
def weightOf (ms : List MediaRange) : Weights Nat := ms.foldl putRange fun _ => none

/-- The less specific ranges that a media type matches, the more specific one first. -/
def wider (t : JavaString) : List JavaString :=
  match t.findIdx? (· = ch '/') with
  | some index => [t.take (index + 1) ++ javaString "*", anyType]
  | none => [anyType]

/-- The weight of a media type: that of the most specific range that it matches. -/
def quality (w : Weights Nat) (t : JavaString) : Option Nat := (t :: wider t).findSome? w

/-- The supported type with the greatest weight, which is positive; otherwise no type is
acceptable. -/
def Right (w : Weights Nat) (types : List JavaString) : Except Throwable JavaString → Prop
  | .ok t => t ∈ types ∧ ∃ q, quality w t = some q ∧ 0 < q ∧
      ∀ t' ∈ types, ∀ q', quality w t' = some q' → q' ≤ q
  | .error e => e = notAcceptable types ∧ ∀ t ∈ types, ∀ q, quality w t = some q → q = 0

/-- An answer, or an exception of the M2M layer. -/
def Declared : Except Throwable JavaString → Prop
  | .ok _ => True
  | .error e => ∃ message status, e = .m2m message status

/-- No weight is zero, and no range has a smaller weight than a less specific one. -/
def Fair (w : Weights Nat) : Prop :=
  ∀ r q, w r = some q → 0 < q ∧ ∀ r' ∈ wider r, ∀ q', w r' = some q' → q' ≤ q

/-- The numbers of a `double` that are thousandths up to 1 are different ones, in their order. -/
structure Doubles.Exact (ds : Doubles D) (nearest : Nat → D) : Prop where
  valueOf : ∀ v n, thousandths v = some n → ds.valueOf v = some (nearest n)
  one : ds.one = nearest 1000
  gt : ∀ n m, n ≤ 1000 → m ≤ 1000 → (ds.gt (nearest n) (nearest m) = true ↔ m < n)
  gt_minusOne : ∀ n, n ≤ 1000 → ds.gt (nearest n) ds.minusOne = true

/-- There is an answer, or an exception of the M2M layer: without a header if there is a supported
type, else if the header does not end with a range right after a comma and all weights are
numbers. -/
def Answers (ds : Doubles D) (accept : Option JavaString) (types : List JavaString) : Prop :=
  match accept with
  | none => types ≠ []
  | some accept => ¬Stuck (ch '0') (lex (.ofMessage accept)) ∧
      ∀ e ∈ lex (.ofMessage accept), Numbers ds e.params

variable {ms : List MediaRange}

section ReadingLists

variable {message s s₁ s₂ s₃ text rest tail : JavaString} {p : Param} {ps : List Param}
  {m : MediaRange} {c : UInt16}

theorem has_acceptStop1 : acceptStop1.has c = true ↔ c = ch ' ' ∨ c = ch ',' ∨ c = ch ';' := by
  have hchars : javaString " ,;" = [ch ' ', ch ',', ch ';'] := by decide
  rw [acceptStop1, hchars, Util.Mask.has_ofChars, mem_cons, mem_cons, mem_singleton]
  refine ⟨And.right, fun h => ⟨?_, h⟩⟩
  rcases h with rfl | rfl | rfl <;> decide

theorem has_acceptStop2 : acceptStop2.has c = true ↔ c = ch ' ' ∨ c = ch '=' := by
  have hchars : javaString " =" = [ch ' ', ch '='] := by decide
  rw [acceptStop2, hchars, Util.Mask.has_ofChars, mem_cons, mem_singleton]
  refine ⟨And.right, fun h => ⟨?_, h⟩⟩
  rcases h with rfl | rfl <;> decide

theorem not_isTokenChar : isTokenChar (ch ' ') = false ∧ isTokenChar (ch ',') = false ∧
    isTokenChar (ch ';') = false ∧ isTokenChar (ch '=') = false := by
  decide

theorem has_acceptStop1_of_token (h : isTokenChar c = true) : acceptStop1.has c = false := by
  rw [Bool.eq_false_iff, ne_eq, has_acceptStop1]
  rintro (rfl | rfl | rfl)
  · rw [not_isTokenChar.1] at h
    cases h
  · rw [not_isTokenChar.2.1] at h
    cases h
  · rw [not_isTokenChar.2.2.1] at h
    cases h

theorem has_acceptStop2_of_token (h : isTokenChar c = true) : acceptStop2.has c = false := by
  rw [Bool.eq_false_iff, ne_eq, has_acceptStop2]
  rintro (rfl | rfl)
  · rw [not_isTokenChar.1] at h
    cases h
  · rw [not_isTokenChar.2.2.2] at h
    cases h

/-- A text that does not begin with a space. -/
def NoSpace (s : JavaString) : Prop := ∀ c ∈ s.head?, c ≠ ch ' '

theorem noSpace_of_notMem (hne : s ≠ []) (hs : ∀ c ∈ s, acceptStop1.has c = false)
    (t : JavaString) : NoSpace (s ++ t) := by
  obtain ⟨c, s, rfl⟩ := exists_cons_of_ne_nil hne
  rintro d hd rfl
  cases hd
  exact absurd (has_acceptStop1.mpr (.inl rfl)) (Bool.eq_false_iff.mp (hs _ mem_cons_self))

theorem noSpace_token (h : Token s) (t : JavaString) : NoSpace (s ++ t) :=
  noSpace_of_notMem h.1 (fun c hc => has_acceptStop1_of_token (h.2 c hc)) t

theorem skip_spaces (hs : Spaces s) (ht : NoSpace text) :
    (⟨message, s ++ text⟩ : StringReader).skip (ch ' ') = ⟨message, text⟩ :=
  StringReader.skip_append hs ht

theorem isRange_spec (h : IsRange s) : s ≠ [] ∧ ∀ c ∈ s, acceptStop1.has c = false := by
  obtain ⟨t, u, ht, hu, rfl⟩ := h
  refine ⟨append_ne_nil_of_left_ne_nil ht.1 _, fun c hc => ?_⟩
  rcases mem_append.mp hc with hc | hc
  · exact has_acceptStop1_of_token (ht.2 c hc)
  · rcases mem_cons.mp hc with rfl | hc
    · decide
    · exact has_acceptStop1_of_token (hu.2 c hc)

theorem isParam_value_ne_nil (h : IsParam p) : p.value ≠ [] := by
  rcases h.value with htoken | ⟨s, -, hquoted⟩
  · exact htoken.1
  · rw [hquoted]
    exact cons_ne_nil _ _

/-- What follows a list element: the end, or a comma and the rest. -/
def IsTail (tail : JavaString) : Prop := ∀ c ∈ tail.head?, c = ch ','

theorem isTail_nil : IsTail [] := nofun

theorem isTail_cons (t : JavaString) : IsTail (ch ',' :: t) := fun _ h => (Option.some.inj h).symm

theorem noSpace_of_isTail (h : IsTail tail) : NoSpace tail := by
  rintro c hc rfl
  exact absurd (h _ hc) (by decide)

theorem noSpace_semicolon (t : JavaString) : NoSpace (ch ';' :: t) := by
  rintro c hc rfl
  exact absurd (Option.some.inj hc) (by decide)

theorem exists_spaces (h : WritesParams ps text) : ∃ s text', Spaces s ∧ text = s ++ text' ∧
    ∀ c ∈ text'.head?, c = ch ';' := by
  cases h with
  | nil hs => exact ⟨text, [], hs, (append_nil _).symm, nofun⟩
  | cons hs h₁ h₂ h₃ hp hrest =>
    refine ⟨_, _, hs, rfl, fun c hc => ?_⟩
    cases hc
    rfl

theorem stops_before (h : WritesParams ps text) (htail : IsTail tail) :
    ∀ c ∈ (text ++ tail).head?, acceptStop1.has c = true := by
  obtain ⟨s, text', hs, rfl, htext'⟩ := exists_spaces h
  intro c hc
  rw [has_acceptStop1]
  cases s with
  | cons d s =>
    cases hc
    exact .inl (hs _ mem_cons_self)
  | nil =>
    cases text' with
    | cons d text' =>
      cases hc
      exact .inr (.inr (htext' _ rfl))
    | nil => exact .inr (.inl (htail c hc))

theorem readParam_writes (message : JavaString) (hp : IsParam p)
    (hplain : ∀ c ∈ p.value, acceptStop1.has c = false)
    (h₁ : Spaces s₁) (h₂ : Spaces s₂) (h₃ : Spaces s₃)
    (hrest : ∀ c ∈ rest.head?, acceptStop1.has c = true) :
    readParam ⟨message, s₁ ++ (p.name ++ (s₂ ++ ch '=' :: (s₃ ++ (p.value ++ rest))))⟩ =
      .ok (p, (⟨message, rest⟩ : StringReader).skip (ch ' ')) := by
  have hname : (⟨message, p.name ++ (s₂ ++ ch '=' :: (s₃ ++ (p.value ++ rest)))⟩ :
      StringReader).readUntil acceptStop2 =
        (p.name, ⟨message, s₂ ++ ch '=' :: (s₃ ++ (p.value ++ rest))⟩) := by
    refine StringReader.readUntil_append
      (fun c hc => has_acceptStop2_of_token (hp.name.2 c hc)) fun c hc => ?_
    rw [has_acceptStop2]
    cases s₂ with
    | nil =>
      cases hc
      exact .inr rfl
    | cons d s₂ =>
      cases hc
      exact .inl (h₂ _ mem_cons_self)
  have hequals : NoSpace (ch '=' :: (s₃ ++ (p.value ++ rest))) := by
    rintro c hc rfl
    exact absurd (Option.some.inj hc) (by decide)
  simp only [readParam, skip_spaces h₁ (noSpace_token hp.name _), hname,
    skip_spaces h₂ hequals, StringReader.checkCurrentAndSkip_cons,
    skip_spaces h₃ (noSpace_of_notMem (isParam_value_ne_nil hp) hplain rest),
    StringReader.readUntil_append hplain hrest]

/-- **The parameters** are read as they are written. -/
theorem lexParams_writes (hps : WritesParams ps rest) (htail : IsTail tail) (hp : IsParam p)
    (hplain : ∀ p' ∈ p :: ps, ∀ c ∈ p'.value, acceptStop1.has c = false)
    (h₁ : Spaces s₁) (h₂ : Spaces s₂) (h₃ : Spaces s₃) :
    lexParams ⟨message, s₁ ++ (p.name ++ (s₂ ++ ch '=' :: (s₃ ++ (p.value ++ (rest ++ tail)))))⟩ =
      ((p :: ps).map some, if tail = [] then .ended else .comma, ⟨message, tail.tail⟩) := by
  have hread := readParam_writes message hp (hplain p mem_cons_self) h₁ h₂ h₃
    (stops_before hps htail)
  induction hps generalizing p s₁ s₂ s₃ with
  | nil hs =>
    rw [skip_spaces hs (noSpace_of_isTail htail)] at hread
    rw [lexParams_of_read hread]
    cases tail with
    | nil => rfl
    | cons c tail =>
      obtain rfl := htail c rfl
      rfl
  | cons hs h₁' h₂' h₃' hp' hrest ih =>
    simp only [append_assoc, cons_append] at hread ⊢
    rw [skip_spaces hs (noSpace_semicolon _)] at hread
    rw [lexParams_of_read hread, if_neg (cons_ne_nil _ _), nextCurrent]
    have hnext := fun p'' hp'' => hplain p'' (mem_cons_of_mem _ hp'')
    rw [if_pos rfl, ih hp' hnext h₁' h₂' h₃' (readParam_writes message hp'
      (hnext _ mem_cons_self) h₁' h₂' h₃' (stops_before hrest htail))]
    rfl

/-- **An element** is read as it is written. -/
theorem lexElement_writes (message : JavaString) (hs : Spaces s) (hm : IsRange m.range)
    (htext : WritesParams m.params text) (htail : IsTail tail)
    (hplain : ∀ p ∈ m.params, ∀ c ∈ p.value, acceptStop1.has c = false) :
    ∃ f, lexElement ⟨message, s ++ (m.range ++ (text ++ tail))⟩ =
      (⟨m.range, m.params.map some, f⟩, ⟨message, tail.tail⟩) ∧ f.closes = true ∧
        (f = .comma ↔ tail ≠ []) := by
  obtain ⟨hne, hrange⟩ := isRange_spec hm
  have hread : ((⟨message, s ++ (m.range ++ (text ++ tail))⟩ : StringReader).skip
      (ch ' ')).readUntil acceptStop1 = (m.range, ⟨message, text ++ tail⟩) := by
    rw [skip_spaces hs (noSpace_of_notMem hne hrange _)]
    exact StringReader.readUntil_append hrange (stops_before htext htail)
  obtain ⟨range, params⟩ := m
  simp only [lexElement, hread]
  by_cases hnil : text ++ tail = []
  · obtain ⟨rfl, rfl⟩ := append_eq_nil_iff.mp hnil
    have hparams : params = [] := by
      generalize hempty : ([] : JavaString) = empty at htext
      cases htext with
      | nil h => rfl
      | cons => exact absurd hempty.symm (by simp)
    rw [if_pos hnil, hparams]
    exact ⟨.bare, rfl, rfl, by decide⟩
  · rw [if_neg hnil]
    cases htext with
    | nil hspaces =>
      rw [skip_spaces hspaces (noSpace_of_isTail htail)]
      cases tail with
      | nil => exact ⟨.ended, rfl, rfl, by decide⟩
      | cons c tail =>
        obtain rfl := htail c rfl
        exact ⟨.comma, rfl, rfl, by simp⟩
    | cons hspaces h₁ h₂ h₃ hp hrest =>
      simp only [append_assoc, cons_append]
      rw [skip_spaces hspaces (noSpace_semicolon _)]
      dsimp only
      rw [if_pos rfl, lexParams_writes hrest htail hp hplain h₁ h₂ h₃]
      refine ⟨_, rfl, ?_, ?_⟩
      · split <;> rfl
      · split <;> simp [*]

end ReadingLists

variable {nearest : Nat → D} {ds : Doubles D}

section Weighing

variable {w : Weights Nat} {range : JavaString} {q : Nat} {ps : List Param} {m : MediaRange}
  {text : JavaString}

/-- The weights as numbers. -/
def near (nearest : Nat → D) (w : Weights Nat) : Weights D := Option.map nearest ∘ w

theorem near_put : near nearest (w.put range q) = (near nearest w).put range (nearest q) :=
  Function.comp_update _ _ _ _

/-- What the parameters that have been read make of the weights. -/
def put? (w : Weights Nat) (range : JavaString) : Option Nat → Weights Nat
  | none => w
  | some q => w.put range q

theorem put_put? (acc : Option Nat) : (put? w range acc).put range q = w.put range q := by
  cases acc with
  | none => rfl
  | some q' => exact Function.update_idem _ _ _

theorem foldlM_near (hexact : ds.Exact nearest) (w : Weights Nat) (range : JavaString)
    (acc : Option Nat) (hps : ∀ p ∈ ps, IsParam p) :
    (ps.map some).foldlM (putRead ds range) (acc.isSome, near nearest (put? w range acc)) =
      .ok ((ps.foldl weightStep acc).isSome,
        near nearest (put? w range (ps.foldl weightStep acc))) := by
  induction ps generalizing acc with
  | nil => rfl
  | cons p ps ih =>
    obtain ⟨hp, hps⟩ := forall_mem_cons.mp hps
    rw [map_cons, foldlM_cons_some, putParam, foldl_cons, weightStep]
    by_cases hq : p.name = javaString "q"
    · obtain ⟨n, hn⟩ := isSome_iff_exists.mp (hp.weight hq)
      rw [if_pos hq, if_pos hq, hexact.valueOf _ _ hn, hn]
      dsimp only
      rw [← near_put, put_put?]
      exact ih (some n) hps
    · rw [if_neg hq, if_neg hq]
      exact ih acc hps

theorem weigh_near (hexact : ds.Exact nearest) {f : Finish} (hcloses : f.closes = true)
    (hps : ∀ p ∈ m.params, IsParam p) :
    (⟨m.range, m.params.map some, f⟩ : Element).weigh ds (near nearest w) =
      .ok (near nearest (putRange w m)) := by
  have hput := foldlM_near hexact w m.range none hps
  simp only [isSome_none, put?] at hput
  rw [Element.weigh, hput, putRange, weightOfParams]
  rw [hcloses]
  cases m.params.foldl weightStep none with
  | none =>
    simp only [isSome_none, Bool.not_false, Bool.and_self, if_true, getD_none]
    rw [near_put, hexact.one]
  | some q => rfl

theorem isParam_of_writesParams (h : WritesParams ps text) : ∀ p ∈ ps, IsParam p := by
  induction h with
  | nil => exact forall_mem_nil _
  | cons _ _ _ _ hp _ ih => exact forall_mem_cons.mpr ⟨hp, ih⟩

theorem numbers_map_some (hexact : ds.Exact nearest) (hps : ∀ p ∈ ps, IsParam p) :
    Numbers ds (ps.map some) := by
  intro p hp hq
  obtain ⟨p', hp', heq⟩ := mem_map.mp hp
  cases heq
  obtain ⟨n, hn⟩ := isSome_iff_exists.mp ((hps p hp').weight hq)
  rw [hexact.valueOf _ _ hn]
  rfl

/-- **The weights of a list** are those that are read. -/
theorem weighAll_writes (hexact : ds.Exact nearest) (h : Writes ms text) (hplain : Plain ms)
    (message : JavaString) (current : UInt16) (w : Weights Nat) :
    (∀ e ∈ lex ⟨message, text⟩, Numbers ds e.params) ∧
      ∀ o, weighAll ds (lex ⟨message, text⟩) current (near nearest w) = some o →
        o = .ok (near nearest (ms.foldl putRange w)) := by
  induction h generalizing current w with
  | last hs hm htext =>
    have hps := isParam_of_writesParams htext
    obtain ⟨f, helement, hcloses, hcomma⟩ := lexElement_writes message hs hm htext
      isTail_nil (hplain _ mem_cons_self)
    rw [append_nil] at helement
    have hfinish : f ≠ .comma := fun h => hcomma.mp h rfl
    rw [lex, helement, dif_neg hfinish, weighAll, weigh_near hexact hcloses hps]
    refine ⟨forall_mem_singleton.mpr (numbers_map_some hexact hps), fun o ho => ?_⟩
    dsimp only at ho
    rw [if_neg hfinish] at ho
    split_ifs at ho
    exact (Option.some.inj ho).symm
  | cons hs hm htext hrest ih =>
    have hps := isParam_of_writesParams htext
    obtain ⟨f, helement, hcloses, hcomma⟩ := lexElement_writes message hs hm htext
      (isTail_cons _) (hplain _ mem_cons_self)
    obtain rfl := hcomma.mpr (cons_ne_nil _ _)
    obtain ⟨hnumbers, hweigh⟩ := ih (fun m hm => hplain m (mem_cons_of_mem _ hm)) (ch ',')
      (putRange w _)
    rw [lex, helement, dif_pos rfl, weighAll, weigh_near hexact hcloses hps]
    exact ⟨forall_mem_cons.mpr ⟨numbers_map_some hexact hps, hnumbers⟩, hweigh⟩

theorem thousandths_le {v : JavaString} {n : Nat} (h : thousandths v = some n) : n ≤ 1000 := by
  unfold thousandths at h
  split at h
  · cases h
  · next c rest =>
    split at h
    · cases h
    · next d hd =>
      split_ifs at h with h0 h1
      · cases h
        unfold decimals at hd
        split at hd
        · cases hd
          omega
        · next c' ds =>
          split_ifs at hd with hdigits
          obtain ⟨-, hlen, hall⟩ := hdigits
          cases hd
          have hlt := Util.numeral_lt fun c hc => all_eq_true.mp hall c hc
          calc numeral ds * 10 ^ (3 - ds.length) ≤ 10 ^ ds.length * 10 ^ (3 - ds.length) :=
                Nat.mul_le_mul_right _ hlt.le
            _ = 10 ^ 3 := by rw [← Nat.pow_add, Nat.add_sub_cancel' hlen]
      · exact (Option.some.inj h).symm.le

theorem weightOfParams_le (ps : List Param) : weightOfParams ps ≤ 1000 := by
  have hfold : ∀ acc : Option Nat, (∀ q ∈ acc, q ≤ 1000) →
      ∀ q ∈ ps.foldl weightStep acc, q ≤ 1000 := by
    induction ps with
    | nil => exact fun acc h => h
    | cons p ps ih =>
      refine fun acc h => ih _ ?_
      unfold weightStep
      split
      · exact fun q hq => thousandths_le hq
      · exact h
  unfold weightOfParams
  cases hacc : ps.foldl weightStep none with
  | none => exact Nat.le_refl _
  | some q => exact hfold none nofun q hacc

theorem weightOf_spec (ms : List MediaRange) : (∃ n, ∀ r q, weightOf ms r = some q → r.length < n) ∧
    ∀ r q, weightOf ms r = some q → q ≤ 1000 := by
  have hfold : ∀ w : Weights Nat, (∃ n, ∀ r q, w r = some q → r.length < n) →
      (∀ r q, w r = some q → q ≤ 1000) →
      (∃ n, ∀ r q, ms.foldl putRange w r = some q → r.length < n) ∧
        ∀ r q, ms.foldl putRange w r = some q → q ≤ 1000 := by
    induction ms with
    | nil => exact fun w hn hq => ⟨hn, hq⟩
    | cons m ms ih =>
      have hput : ∀ (w : Weights Nat) r q, putRange w m r = some q →
          r = m.range ∧ q = weightOfParams m.params ∨ w r = some q := by
        intro w r q h
        by_cases hr : r = m.range
        · rw [hr, putRange, Weights.put, Function.update_self] at h
          exact .inl ⟨hr, (Option.some.inj h).symm⟩
        · rw [putRange, Weights.put, Function.update_of_ne hr] at h
          exact .inr h
      rintro w ⟨n, hn⟩ hq
      refine ih _ ⟨max n (m.range.length + 1), fun r q h => ?_⟩ fun r q h => ?_
      · rcases hput w r q h with ⟨rfl, -⟩ | h
        · omega
        · have := hn r q h
          omega
      · rcases hput w r q h with ⟨-, rfl⟩ | h
        · exact weightOfParams_le _
        · exact hq r q h
  exact hfold _ ⟨0, nofun⟩ nofun

end Weighing

section Choice

/-- The weight of a range, if it is above the best so far. -/
def above (w : Weights Nat) (best : Option Nat) (r : JavaString) : Option Nat :=
  match w r with
  | none => none
  | some q => if best.all (· < q) then some q else none

/-- One round of the choice, in thousandths. -/
def choose (w : Weights Nat) (s : Option Nat × Option JavaString) (t : JavaString) :
    Option Nat × Option JavaString :=
  match (t :: wider t).findSome? (above w s.1) with
  | some q => (some q, some t)
  | none => s

/-- The best weight as a number. -/
def bestOf (ds : Doubles D) (nearest : Nat → D) : Option Nat → D
  | none => ds.minusOne
  | some q => nearest q

def answer (types : List JavaString) : Option JavaString → Except Throwable JavaString
  | none => .error (notAcceptable types)
  | some t => .ok t

variable {w : Weights Nat} {b : Option Nat} {q q' n : Nat} {t r r' : JavaString}
  {s : Option Nat × Option JavaString} {types seen : List JavaString}

theorem above_eq_some : above w b r = some q ↔ w r = some q ∧ ∀ q' ∈ b, q' < q := by
  unfold above
  cases hw : w r with
  | none => simp
  | some n =>
    cases b with
    | none => simp
    | some q' =>
      simp only [all_some, decide_eq_true_eq, ite_none_right_eq_some,
        Option.some.injEq, mem_def, forall_eq']
      exact ⟨fun h => ⟨h.2, h.2 ▸ h.1⟩, fun h => ⟨h.1 ▸ h.2, h.1⟩⟩

theorem chooseStep_eq (weights : Weights D) (s : D × Option JavaString) :
    chooseStep ds weights s t = match (t :: wider t).findSome? (greater ds weights s.1) with
      | some weight => (weight, some t)
      | none => s := by
  unfold chooseStep wider
  rw [findSome?_cons]
  cases greater ds weights s.1 t with
  | some weight => rfl
  | none =>
    cases t.findIdx? (· = ch '/') with
    | none =>
      cases h : greater ds weights s.1 anyType <;> simp only [findSome?_singleton, h]
    | some index =>
      dsimp only
      rw [findSome?_cons]
      cases greater ds weights s.1 (t.take (index + 1) ++ javaString "*") with
      | some weight => rfl
      | none =>
        cases h : greater ds weights s.1 anyType <;> simp only [findSome?_singleton, h]

theorem greater_near (hexact : ds.Exact nearest) (hw : ∀ r q, w r = some q → q ≤ 1000)
    (hb : ∀ q ∈ b, q ≤ 1000) :
    greater ds (near nearest w) (bestOf ds nearest b) r = (above w b r).map nearest := by
  unfold greater near above
  rw [Function.comp_apply]
  cases hq : w r with
  | none => rfl
  | some q =>
    have hle := hw r q hq
    cases b with
    | none => simp [bestOf, hexact.gt_minusOne q hle]
    | some q' =>
      have hgt := hexact.gt q q' hle (hb q' rfl)
      by_cases hlt : q' < q
      · simp [bestOf, hgt.mpr hlt, hlt]
      · simp [bestOf, mt hgt.mp hlt, hlt]

theorem exists_of_findSome? {l : List JavaString} (h : l.findSome? (above w b) = some q) :
    ∃ r ∈ l, w r = some q ∧ ∀ q' ∈ b, q' < q := by
  obtain ⟨r, hr, hq⟩ := exists_of_findSome?_eq_some h
  exact ⟨r, hr, above_eq_some.mp hq⟩

/-- **The loop over the supported types**, in thousandths. -/
theorem foldl_chooseStep (types : List JavaString) (hexact : ds.Exact nearest)
    (hw : ∀ r q, w r = some q → q ≤ 1000)
    (hb : ∀ q ∈ s.1, q ≤ 1000) :
    types.foldl (chooseStep ds (near nearest w)) (bestOf ds nearest s.1, s.2) =
      (bestOf ds nearest (types.foldl (choose w) s).1, (types.foldl (choose w) s).2) := by
  induction types generalizing s with
  | nil => rfl
  | cons t types ih =>
    have hfun : greater ds (near nearest w) (bestOf ds nearest s.1) =
        Option.map nearest ∘ above w s.1 := funext fun r => greater_near hexact hw hb
    rw [foldl_cons, foldl_cons, chooseStep_eq]
    rw [hfun, ← map_findSome?, choose]
    cases hpick : (t :: wider t).findSome? (above w s.1) with
    | none => exact ih hb
    | some q =>
      obtain ⟨r, -, hq, -⟩ := exists_of_findSome? hpick
      have := ih (s := (some q, some t)) fun q' hq' => by
        rw [← Option.some.inj hq']
        exact hw r q hq
      exact this

theorem anyType_mem_wider (t : JavaString) : anyType ∈ wider t := by
  unfold wider
  split
  · exact mem_cons_of_mem _ mem_cons_self
  · exact mem_cons_self

theorem findSome?_above_of_pairwise {l : List JavaString}
    (hl : l.Pairwise fun r r' => ∀ q q', w r = some q → w r' = some q' → q' ≤ q)
    (hq : l.findSome? w = some q) :
    l.findSome? (above w b) = if ∀ q' ∈ b, q' < q then some q else none := by
  induction l with
  | nil => cases hq
  | cons r l ih =>
    obtain ⟨hr, hl⟩ := pairwise_cons.mp hl
    rw [findSome?_cons] at hq ⊢
    cases hw : w r with
    | none =>
      have hnone : above w b r = none := by rw [above, hw]
      rw [hw] at hq
      rw [hnone]
      exact ih hl hq
    | some n =>
      rw [hw] at hq
      cases hq
      split_ifs with hb
      · rw [above_eq_some.mpr ⟨hw, hb⟩]
      · have hnone : above w b r = none := eq_none_iff_forall_ne_some.mpr fun n hn => by
          obtain ⟨hn, hb'⟩ := above_eq_some.mp hn
          cases hw.symm.trans hn
          exact hb hb'
        rw [hnone]
        refine findSome?_eq_none_iff.mpr fun r' hr' =>
          eq_none_iff_forall_ne_some.mpr fun n hn => ?_
        obtain ⟨hn, hb'⟩ := above_eq_some.mp hn
        exact hb fun q' hq' => Nat.lt_of_lt_of_le (hb' q' hq') (hr r' hr' _ _ hw hn)

theorem pairwise_of_fair (hfair : Fair w) (t : JavaString) :
    (t :: wider t).Pairwise fun r r' => ∀ q q', w r = some q → w r' = some q' → q' ≤ q := by
  refine pairwise_cons.mpr ⟨fun r' hr' q q' hq hq' => (hfair t q hq).2 r' hr' q' hq', ?_⟩
  unfold wider
  split
  · refine pairwise_pair.mpr fun q q' hq hq' => ?_
    exact (hfair _ q hq).2 anyType (anyType_mem_wider _) q' hq'
  · exact pairwise_singleton _ _

/-- What has been chosen among the types seen so far. -/
def Chosen (w : Weights Nat) (seen : List JavaString) (s : Option Nat × Option JavaString) : Prop :=
  s = (none, none) ∧ (∀ t ∈ seen, quality w t = none) ∨
    ∃ q t, s = (some q, some t) ∧ t ∈ seen ∧ quality w t = some q ∧
      ∀ t' ∈ seen, ∀ q', quality w t' = some q' → q' ≤ q

theorem chosen_choose (hfair : Fair w) (h : Chosen w seen s) (t : JavaString) :
    Chosen w (seen ++ [t]) (choose w s t) := by
  unfold choose
  cases hq : quality w t with
  | none =>
    have hnone : (t :: wider t).findSome? (above w s.1) = none := by
      refine findSome?_eq_none_iff.mpr fun r hr =>
        eq_none_iff_forall_ne_some.mpr fun n hn => ?_
      have hw := findSome?_eq_none_iff.mp hq r hr
      cases hw.symm.trans (above_eq_some.mp hn).1
    rw [hnone]
    rcases h with ⟨hs, hall⟩ | ⟨q, t', hs, hmem, hquality, hall⟩
    · exact .inl ⟨hs, forall_mem_append.mpr ⟨hall, forall_mem_singleton.mpr hq⟩⟩
    · refine .inr ⟨q, t', hs, mem_append_left _ hmem, hquality,
        forall_mem_append.mpr ⟨hall, forall_mem_singleton.mpr fun q' hq' => ?_⟩⟩
      cases hq.symm.trans hq'
  | some q =>
    rw [findSome?_above_of_pairwise (pairwise_of_fair hfair t) hq]
    rcases h with ⟨rfl, hall⟩ | ⟨q', t', rfl, hmem, hquality, hall⟩
    · refine .inr ⟨q, t, rfl, mem_append_right _ mem_cons_self, hq,
        forall_mem_append.mpr ⟨fun t' ht' q' hq' => ?_, forall_mem_singleton.mpr
          fun q' hq' => (Option.some.inj (hq'.symm.trans hq)).le⟩⟩
      cases (hall t' ht').symm.trans hq'
    · by_cases hlt : q' < q
      · rw [if_pos fun n hn => Option.some.inj hn ▸ hlt]
        exact .inr ⟨q, t, rfl, mem_append_right _ mem_cons_self, hq,
          forall_mem_append.mpr ⟨fun t'' ht'' n hn => (hall t'' ht'' n hn).trans hlt.le,
            forall_mem_singleton.mpr fun n hn => (Option.some.inj (hn.symm.trans hq)).le⟩⟩
      · rw [if_neg fun h => hlt (h q' rfl)]
        refine .inr ⟨q', t', rfl, mem_append_left _ hmem, hquality,
          forall_mem_append.mpr ⟨hall, forall_mem_singleton.mpr fun n hn => ?_⟩⟩
        cases hn.symm.trans hq
        exact Nat.le_of_not_lt hlt

theorem chosen_foldl (hfair : Fair w) (h : Chosen w seen s) :
    Chosen w (seen ++ types) (types.foldl (choose w) s) := by
  induction types generalizing seen s with
  | nil => rwa [append_nil]
  | cons t types ih =>
    have := ih (chosen_choose hfair h t)
    rwa [append_assoc, singleton_append] at this

/-- **With fair weights** the answer is right. -/
theorem right_of_fair (hfair : Fair w) (types : List JavaString) :
    Right w types (answer types (types.foldl (choose w) (none, none)).2) := by
  have hnone : Chosen w [] (none, none) := .inl ⟨rfl, forall_mem_nil _⟩
  have hchosen : Chosen w ([] ++ types) (types.foldl (choose w) (none, none)) :=
    chosen_foldl hfair hnone
  rw [nil_append] at hchosen
  rcases hchosen with ⟨hs, hall⟩ | ⟨q, t, hs, hmem, hquality, hall⟩
  · rw [hs]
    refine ⟨rfl, fun t ht q hq => ?_⟩
    cases (hall t ht).symm.trans hq
  · rw [hs]
    obtain ⟨r, -, hr⟩ := exists_of_findSome?_eq_some hquality
    exact ⟨hmem, q, hquality, (hfair r q hr).1, hall⟩

/-! ### Weights that are not fair -/

theorem quality_of_weight (hq : w r = some q) : quality w r = some q := by
  rw [quality, findSome?_cons, hq]

theorem exists_settled (hle : ∀ r q, w r = some q → q ≤ 1000) (r : JavaString) (q : Nat) :
    ∃ n q', (replicate n r).foldl (choose w) (some q, some r) = (some q', some r) ∧ q ≤ q' ∧
      (∀ c ∈ r :: wider r, ∀ n, w c = some n → n ≤ q') ∧
      (q' = q ∨ ∃ c ∈ r :: wider r, w c = some q') := by
  induction hd : 1000 - q using Nat.strong_induction_on generalizing q with
  | _ d ih =>
  cases hpick : (r :: wider r).findSome? (above w (some q)) with
  | none =>
    refine ⟨0, q, rfl, Nat.le_refl _, fun c hc n hn => ?_, .inl rfl⟩
    by_contra hlt
    have hnone := findSome?_eq_none_iff.mp hpick c hc
    have hsome : above w (some q) c = some n :=
      above_eq_some.mpr ⟨hn, fun q' hq' => Option.some.inj hq' ▸ Nat.lt_of_not_le hlt⟩
    cases hnone.symm.trans hsome
  | some p =>
    obtain ⟨c, hc, hp, hlt⟩ := exists_of_findSome? hpick
    have hqp := hlt q rfl
    have hp1000 := hle c p hp
    obtain ⟨n, q', hfold, hge, hall, hattained⟩ := ih (1000 - p) (by omega) p rfl
    refine ⟨n + 1, q', ?_, hqp.le.trans hge, hall, .inr ?_⟩
    · rw [replicate_succ, foldl_cons, choose, hpick]
      exact hfold
    · rcases hattained with rfl | hattained
      · exact ⟨c, hc, hp⟩
      · exact hattained

theorem exists_fresh (hn : ∀ r q, w r = some q → r.length < n) (hr' : r' ∈ wider r) :
    ∃ v, w v = none ∧ (wider v = [r', anyType] ∨ wider v = [r']) := by
  have hfresh : ∀ v : JavaString, n ≤ v.length → w v = none := fun v hv =>
    eq_none_iff_forall_ne_some.mpr fun q hq => Nat.not_lt.mpr hv (hn v q hq)
  have hletters : ∀ c ∈ replicate n (ch 'a'), decide (c = ch '/') = false := fun c hc => by
    rw [eq_of_mem_replicate hc]
    rfl
  have hany : ∃ v, w v = none ∧ wider v = [anyType] := by
    refine ⟨replicate n (ch 'a'), hfresh _ (by rw [length_replicate]), ?_⟩
    rw [wider, findIdx?_eq_none_iff.mpr hletters]
  unfold wider at hr'
  split at hr'
  · next index hindex =>
    rcases mem_cons.mp hr' with rfl | hr'
    · obtain ⟨a, d, rest, rfl, rfl, hd, ha⟩ := Delimiter.findIdx?_eq_some_split hindex
      refine ⟨a ++ d :: replicate n (ch 'a'), hfresh _ ?_, .inl ?_⟩
      · rw [length_append, length_cons, length_replicate]
        omega
      · rw [wider, Delimiter.findIdx?_append_cons (p := fun c => decide (c = ch '/')) hd ha]
        simp only [take_append, take_of_length_le (Nat.le_succ a.length),
          Nat.add_sub_cancel_left, take_succ_cons, take_zero]
    · obtain ⟨v, hv, hwider⟩ := hany
      rw [mem_singleton.mp hr']
      exact ⟨v, hv, .inr hwider⟩
  · obtain ⟨v, hv, hwider⟩ := hany
    rw [mem_singleton.mp hr']
    exact ⟨v, hv, .inr hwider⟩

/-- **If the answer is right** for all types, the weights are fair. -/
theorem fair_of_right (hn : ∀ r q, w r = some q → r.length < n)
    (hle : ∀ r q, w r = some q → q ≤ 1000)
    (h : ∀ types, Right w types (answer types (types.foldl (choose w) (none, none)).2)) :
    Fair w := by
  intro r q hq
  have hfirst : choose w (none, none) r = (some q, some r) := by
    have hsome : above w none r = some q := above_eq_some.mpr ⟨hq, nofun⟩
    rw [choose, findSome?_cons, hsome]
  refine ⟨?_, fun r' hr' q' hq' => ?_⟩
  · have hright := h [r]
    rw [foldl_cons, foldl_nil, hfirst] at hright
    obtain ⟨-, n, hquality, hpos, -⟩ := hright
    cases (quality_of_weight hq).symm.trans hquality
    exact hpos
  · by_contra hlt
    obtain ⟨k, m, hfold, -, hall, hattained⟩ := exists_settled hle r q
    have hqm : q < m := Nat.lt_of_lt_of_le (Nat.lt_of_not_le hlt)
      (hall r' (mem_cons_of_mem _ hr') q' hq')
    obtain ⟨c, hc, hm⟩ : ∃ c ∈ wider r, w c = some m := by
      rcases hattained with rfl | ⟨c, hc, hm⟩
      · exact absurd hqm (Nat.lt_irrefl _)
      · rcases mem_cons.mp hc with rfl | hc
        · cases hq.symm.trans hm
          exact absurd hqm (Nat.lt_irrefl _)
        · exact ⟨c, hc, hm⟩
    obtain ⟨v, hv, hwider⟩ := exists_fresh hn hc
    have hquality : quality w v = some m := by
      rw [quality, findSome?_cons, hv]
      rcases hwider with hwider | hwider <;> rw [hwider, findSome?_cons, hm]
    have hpick : (v :: wider v).findSome? (above w (some m)) = none := by
      have hnone : ∀ c' ∈ wider r, above w (some m) c' = none := fun c' hc' =>
        eq_none_iff_forall_ne_some.mpr fun p hp => by
          obtain ⟨hp, hlt⟩ := above_eq_some.mp hp
          exact Nat.not_lt.mpr (hall c' (mem_cons_of_mem _ hc') p hp) (hlt m rfl)
      have hvnone : above w (some m) v = none := by rw [above, hv]
      refine findSome?_eq_none_iff.mpr (forall_mem_cons.mpr ⟨hvnone, ?_⟩)
      rcases hwider with hwider | hwider
      · rw [hwider]
        exact forall_mem_cons.mpr ⟨hnone c hc,
          forall_mem_singleton.mpr (hnone _ (anyType_mem_wider r))⟩
      · rw [hwider]
        exact forall_mem_singleton.mpr (hnone c hc)
    have hright := h (r :: (replicate k r ++ [v]))
    rw [foldl_cons, hfirst, foldl_append, hfold, foldl_cons, foldl_nil, choose,
      hpick] at hright
    obtain ⟨-, p, hp, -, hgreatest⟩ := hright
    cases (quality_of_weight hq).symm.trans hp
    exact Nat.not_lt.mpr (hgreatest v (mem_cons_of_mem _
      (mem_append_right _ mem_cons_self)) m hquality) hqm

end Choice

section Answers

variable {accept : JavaString} {types : List JavaString} {n : Nat} {weights : Weights D}
  {x : Throwable}

theorem answers_none :
    (∃ n r, getAcceptedMediaType ds n none types = some r ∧ Declared r) ↔ types ≠ [] := by
  cases types with
  | nil =>
    refine ⟨?_, fun h => absurd rfl h⟩
    rintro ⟨n, r, hr, hdeclared⟩
    cases hr
    obtain ⟨message, status, h⟩ := hdeclared
    cases h
  | cons t types => exact ⟨fun _ => cons_ne_nil _ _, fun _ => ⟨0, .ok t, rfl, trivial⟩⟩

/-- What is made of the weights, or of what is thrown. -/
def conclude (ds : Doubles D) (accept : JavaString) (types : List JavaString) :
    Except Throwable (Weights D) → Except Throwable JavaString
  | .error .parse => .error (badAccept accept)
  | .error x => .error x
  | .ok weights => answer types (types.foldl (chooseStep ds weights) (ds.minusOne, none)).2

/-- **What is returned** comes of the elements. -/
theorem getAcceptedMediaType_eq_some {r : Except Throwable JavaString} :
    (∃ n, getAcceptedMediaType ds n (some accept) types = some r) ↔
      ∃ o, weighAll ds (lex (.ofMessage accept)) (ch '0') (fun _ => none) = some o ∧
        conclude ds accept types o = r := by
  have hmap : ∀ n, getAcceptedMediaType ds n (some accept) types =
      (acceptLoop ds n (.ofMessage accept) (ch '0') fun _ => none).map
        (conclude ds accept types) := by
    intro n
    rw [getAcceptedMediaType, extractAccept]
    cases acceptLoop ds n (.ofMessage accept) (ch '0') fun _ => none with
    | none => rfl
    | some o =>
      cases o with
      | error x => cases x <;> rfl
      | ok weights =>
        simp only [map_some, conclude]
        cases (types.foldl (chooseStep ds weights) (ds.minusOne, none)).2 <;> rfl
  simp only [hmap, map_eq_some_iff, ← acceptLoop_eq_some]
  exact ⟨fun ⟨n, o, h⟩ => ⟨o, ⟨n, h.1⟩, h.2⟩, fun ⟨o, ⟨n, hn⟩, h⟩ => ⟨n, o, hn, h⟩⟩

theorem answers_some (accept : JavaString) :
    (∃ n r, getAcceptedMediaType ds n (some accept) types = some r ∧ Declared r) ↔
      Answers ds (some accept) types := by
  rw [exists_comm]
  simp only [exists_and_right, getAcceptedMediaType_eq_some]
  by_cases hnumbers : ∀ e ∈ lex (.ofMessage accept), Numbers ds e.params
  · obtain ⟨hnone, hsome⟩ := weighAll_of_numbers (ch '0') (fun _ => none) hnumbers
    constructor
    · rintro ⟨r, ⟨o, ho, -⟩, -⟩
      refine ⟨fun hstuck => ?_, hnumbers⟩
      cases ho.symm.trans (hnone hstuck)
    · rintro ⟨hstuck, -⟩
      obtain ⟨o, ho, hcases⟩ := hsome hstuck
      refine ⟨_, ⟨o, ho, rfl⟩, ?_⟩
      rcases hcases with rfl | ⟨weights, rfl⟩
      · exact ⟨_, _, rfl⟩
      · rw [conclude]
        cases (types.foldl (chooseStep ds weights) (ds.minusOne, none)).2 with
        | none => exact ⟨_, _, rfl⟩
        | some t => trivial
  · refine ⟨?_, fun h => absurd h.2 hnumbers⟩
    rintro ⟨r, ⟨o, ho, rfl⟩, hdeclared⟩
    cases ho.symm.trans (weighAll_of_not_numbers hnumbers)
    obtain ⟨message, status, h⟩ := hdeclared
    cases h

/-- **When there is an answer, and when it is right** for all types that may be supported. -/
theorem getAcceptedMediaType_iff (hexact : ds.Exact nearest) (accept : Option JavaString) :
    (∀ types, (∃ n r, getAcceptedMediaType ds n accept types = some r ∧ Declared r) ↔
      Answers ds accept types) ∧
    ∀ header ms, accept = some header → Writes ms header → Plain ms →
      ((∀ types, ∃ n r, getAcceptedMediaType ds n accept types = some r ∧
        Right (weightOf ms) types r) ↔
          ¬Stuck (ch '0') (lex (.ofMessage header)) ∧ Fair (weightOf ms)) := by
  constructor
  · intro types
    cases accept with
    | none => exact answers_none
    | some accept => exact answers_some accept
  rintro header ms rfl hwrites hplain
  obtain ⟨⟨bound, hbound⟩, hle⟩ := weightOf_spec ms
  obtain ⟨hnumbers, hweigh⟩ := weighAll_writes hexact hwrites hplain header (ch '0') fun _ => none
  obtain ⟨hnone, hsome⟩ := weighAll_of_numbers (ch '0') (fun _ => none) hnumbers
  have hconclude : ∀ types, conclude ds header types (.ok (near nearest (weightOf ms))) =
      answer types (types.foldl (choose (weightOf ms)) (none, none)).2 := by
    intro types
    have hfold := foldl_chooseStep (s := (none, none)) types hexact hle fun q hq => by cases hq
    exact congrArg (answer types ·.2) hfold
  have hright : ∀ types, (∃ n r, getAcceptedMediaType ds n (some header) types = some r ∧
      Right (weightOf ms) types r) ↔ ¬Stuck (ch '0') (lex (.ofMessage header)) ∧
        Right (weightOf ms) types
          (answer types (types.foldl (choose (weightOf ms)) (none, none)).2) := by
    intro types
    rw [exists_comm]
    simp only [exists_and_right, getAcceptedMediaType_eq_some]
    constructor
    · rintro ⟨r, ⟨o, ho, rfl⟩, hr⟩
      refine ⟨fun hstuck => ?_, ?_⟩
      · cases ho.symm.trans (hnone hstuck)
      · rwa [hweigh o ho, ← weightOf, hconclude] at hr
    · rintro ⟨hstuck, hr⟩
      obtain ⟨o, ho, -⟩ := hsome hstuck
      refine ⟨_, ⟨o, ho, rfl⟩, ?_⟩
      rwa [hweigh o ho, ← weightOf, hconclude]
  simp only [hright]
  exact ⟨fun h => ⟨(h []).1, fair_of_right hbound hle fun types => (h types).2⟩,
    fun h types => ⟨h.1, right_of_fair h.2 types⟩⟩

/-- Numbers that are thousandths. -/
def decimalDoubles : Doubles Int where
  valueOf v := (thousandths v).map Int.ofNat
  gt x y := decide (y < x)
  one := 1000
  minusOne := -1000

theorem exact_decimalDoubles : decimalDoubles.Exact Int.ofNat where
  valueOf v n h := congrArg (Option.map Int.ofNat) h
  one := rfl
  gt n m _ _ := decide_eq_true_iff.trans Int.ofNat_lt
  gt_minusOne n _ := decide_eq_true (show (-1000 : Int) < Int.ofNat n by simp; omega)

def xml : JavaString := javaString "application/xml"

def exi : JavaString := javaString "application/exi"

theorem exists_of_weightOf {ms : List MediaRange} {r : JavaString} {q : Nat}
    (h : weightOf ms r = some q) : ∃ m ∈ ms, m.range = r ∧ weightOfParams m.params = q := by
  induction ms using reverseRecOn with
  | nil => cases h
  | append_singleton ms m ih =>
    rw [weightOf, foldl_append, foldl_cons, foldl_nil, putRange, Weights.put,
      Function.update_apply] at h
    split at h
    · rename_i hr
      exact ⟨m, mem_append_right ms (mem_singleton_self m), hr.symm, Option.some.inj h⟩
    · obtain ⟨m', hm', hrange⟩ := ih h
      exact ⟨m', mem_append_left [m] hm', hrange⟩

theorem fair_weightOf {ms : List MediaRange} (h : ∀ m ∈ ms, 0 < weightOfParams m.params ∧
    ∀ m' ∈ ms, m'.range ∈ wider m.range → weightOfParams m'.params ≤ weightOfParams m.params) :
    Fair (weightOf ms) := by
  intro r q hq
  obtain ⟨m, hm, rfl, rfl⟩ := exists_of_weightOf hq
  refine ⟨(h m hm).1, fun r' hr' q' hq' => ?_⟩
  obtain ⟨m', hm', rfl, rfl⟩ := exists_of_weightOf hq'
  exact (h m hm).2 m' hm' hr'

/-- A range with its weight. -/
def weighted (t u q : JavaString) : MediaRange := ⟨t ++ ch '/' :: u, [⟨javaString "q", q⟩]⟩

theorem writes_weighted {t u q rest : JavaString} (ht : Token t) (hu : Token u) (hq : Token q)
    (hweight : (thousandths q).isSome) {ms : List MediaRange} (hrest : Writes ms rest) :
    Writes (weighted t u q :: ms) ([ch ' '] ++ ((t ++ ch '/' :: u) ++
      (([] ++ ch ';' :: ([] ++ (javaString "q" ++ ([] ++ ch '=' :: ([] ++ (q ++ [])))))) ++
        ch ',' :: rest))) :=
  have hname : Token (javaString "q") := ⟨by decide, all_eq_true.mp (by decide)⟩
  .cons (forall_mem_singleton.mpr rfl) ⟨t, u, ht, hu, rfl⟩
    (.cons (forall_mem_nil _) (forall_mem_nil _) (forall_mem_nil _)
      (forall_mem_nil _) ⟨hname, .inl hq, fun _ => hweight⟩ (.nil (forall_mem_nil _)))
    hrest

/-- Two ranges with weights, and one without. -/
def ranges : List MediaRange :=
  [weighted (javaString "application") (javaString "exi") (javaString "0.5"),
    weighted (javaString "application") (javaString "*") (javaString "0.25"), ⟨xml, []⟩]

def threeRanges : JavaString :=
  javaString " application/exi;q=0.5, application/*;q=0.25,application/xml "

theorem getAcceptedMediaType_iff_xml :
    ∃ n r, getAcceptedMediaType decimalDoubles n (some threeRanges) [exi, xml] = some r ∧
      Right (weightOf ranges) [exi, xml] r := by
  have htoken (s : JavaString) (hs : s ≠ []) (h : s.all isTokenChar = true) : Token s :=
    ⟨hs, all_eq_true.mp h⟩
  have happlication := htoken (javaString "application") (by decide) (by decide)
  have hlast : Writes [⟨xml, []⟩] ([] ++ (xml ++ [ch ' '])) :=
    .last (forall_mem_nil _)
      ⟨_, _, happlication, htoken (javaString "xml") (by decide) (by decide), rfl⟩
      (.nil (forall_mem_singleton.mpr rfl))
  have hwrites : Writes ranges threeRanges :=
    writes_weighted happlication (htoken (javaString "exi") (by decide) (by decide))
      (htoken (javaString "0.5") (by decide) (by decide)) (by decide)
      (writes_weighted happlication (htoken (javaString "*") (by decide) (by decide))
        (htoken (javaString "0.25") (by decide) (by decide)) (by decide) hlast)
  have hplain : Plain ranges := by
    intro m hm p hp c hc
    have h : ranges.all (·.params.all (·.value.all (!acceptStop1.has ·))) = true := by decide
    have hvalue := all_eq_true.mp (all_eq_true.mp (all_eq_true.mp h m hm) p hp) c hc
    simpa using hvalue
  have hstuck : ¬Stuck (ch '0') (lex (.ofMessage threeRanges)) := by
    rintro ⟨-, h⟩
    exact absurd h (by decide +kernel)
  exact ((getAcceptedMediaType_iff exact_decimalDoubles (some threeRanges)).2 threeRanges ranges rfl
    hwrites hplain).mpr ⟨hstuck, fair_weightOf (by decide)⟩ [exi, xml]

/-- Two ranges without a space after the last one: there is no answer.  A weight of zero is not
excluded, a less specific range is used where the exact one has a smaller weight, and a weight that
is no number is not an exception of the M2M layer. -/
theorem not_answered_list :
    (¬∃ n r, getAcceptedMediaType decimalDoubles n
      (some (javaString "application/xml,application/exi")) [xml] = some r) ∧
    getAcceptedMediaType decimalDoubles 1 (some (javaString "application/xml;q=0")) [xml] =
      some (.ok xml) ∧
    getAcceptedMediaType decimalDoubles 3
      (some (javaString "application/xml;q=0.2,*/*;q=0.9,application/exi;q=0.5")) [exi, xml] =
        some (.ok xml) ∧
    getAcceptedMediaType decimalDoubles 1 (some (javaString "application/xml;q=high")) [xml] =
      some (.error .numberFormat) := by
  refine ⟨?_, by decide +kernel, by decide +kernel, by decide +kernel⟩
  rw [exists_comm]
  simp only [getAcceptedMediaType_eq_some]
  rintro ⟨r, o, ho, -⟩
  have hnone : (weighAll decimalDoubles (lex (.ofMessage (javaString
      "application/xml,application/exi"))) (ch '0') fun _ => none).isNone := by decide +kernel
  rw [ho] at hnone
  cases hnone

end Answers

end Ong.M2M
